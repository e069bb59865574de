/-
Profiles as capabilities, and the profiles that can come about.

What a profile speaks is a set of capabilities under known names, and `capabilities` is that
set: it lists a version under a name exactly when the name is that of a known subprotocol
and the version is spoken of it.  The order of ordinals, in which the rows come, leaves no
trace in it.

A profile made from capabilities under known names only gives them back.  A profile is either
the native one or made so, from capabilities that can come about themselves.
-/
import Subprotocol.Profile.Config
import Subprotocol.Proofs.Capabilities.Reachable

namespace Subprotocol

namespace Known

theorem validName (k : Known) : ValidName k.name := by
  cases k <;> decide

theorem ofName?_eq_some_iff {name : String} {k : Known} :
    ofName? name = some k ↔ k.name = name := by
  refine ⟨name_of_ofName?, fun h => ?_⟩
  rw [← h]
  exact ofName?_name k

theorem ofName?_eq_none_iff {name : String} :
    ofName? name = none ↔ ¬ ∃ k : Known, k.name = name := by
  rw [Option.eq_none_iff_forall_ne_some]
  simp only [ne_eq, ofName?_eq_some_iff, not_exists]

end Known

namespace Profile

/-! ### What a profile lists -/

theorem WellFormed.supports_iff_holds {p : Profile} (hp : p.WellFormed) {k : Known} {v : Nat} :
    p.supports k v = true ↔ (p.spans k).Holds v :=
  Spans.supports_iff_holds (hp.separated k)

theorem entry?_eq_some_iff {p : Profile} {k : Known} {e : Entry} :
    p.entry? k = some e ↔ p.spans k ≠ [] ∧ e = ⟨k.name, p.spans k⟩ := by
  unfold entry?
  by_cases h : p.spans k = []
  · simp [h]
  · simp [h, eq_comm]

theorem entryNamed?_eq_some_iff {p : Profile} {name : String} {e : Entry} :
    p.entryNamed? name = some e ↔ ∃ k : Known, k.name = name ∧ p.entry? k = some e := by
  unfold entryNamed?
  simp only [Option.bind_eq_some_iff, Known.ofName?_eq_some_iff]

private theorem mem_rows_iff {p : Profile} {e : Entry} :
    e ∈ p.rows.map Prod.snd ↔ ∃ k, p.entry? k = some e := by
  unfold rows
  simp only [List.mem_map, List.mem_filterMap, Option.map_eq_some_iff]
  refine ⟨fun h => ?_, fun h => ?_⟩
  · obtain ⟨row, ⟨k, -, f, hf, hrow⟩, he⟩ := h
    rw [← he, ← hrow]
    exact ⟨k, hf⟩
  · obtain ⟨k, hk⟩ := h
    exact ⟨(k, e), ⟨k, Known.mem_all k, e, hk, rfl⟩, rfl⟩

/-- **A profile lists what it speaks of the known subprotocols.** -/
theorem lists_capabilities {p : Profile} {name : String} {v : Nat} :
    p.capabilities.Lists name v ↔ ∃ k : Known, k.name = name ∧ (p.spans k).Holds v := by
  unfold capabilities
  rw [Capabilities.lists_ofEntries]
  refine ⟨fun h => ?_, fun h => ?_⟩
  · obtain ⟨e, he, hname, hv⟩ := h
    obtain ⟨k, hk⟩ := mem_rows_iff.mp he
    obtain ⟨-, rfl⟩ := entry?_eq_some_iff.mp hk
    exact ⟨k, hname, hv⟩
  · obtain ⟨k, hname, hv⟩ := h
    have hentry : p.entry? k = some ⟨k.name, p.spans k⟩ :=
      entry?_eq_some_iff.mpr ⟨Spans.ne_nil_of_holds hv, rfl⟩
    exact ⟨_, mem_rows_iff.mpr ⟨k, hentry⟩, hname, hv⟩

theorem lists_capabilities_name {p : Profile} {k : Known} {v : Nat} :
    p.capabilities.Lists k.name v ↔ (p.spans k).Holds v := by
  rw [lists_capabilities]
  refine ⟨fun h => ?_, fun h => ⟨k, rfl, h⟩⟩
  obtain ⟨l, hname, hv⟩ := h
  have hlk : some l = some k := by
    rw [← Known.ofName?_name l, hname, Known.ofName?_name]
  rwa [← Option.some.inj hlk]

theorem WellFormed.capabilities {p : Profile} (hp : p.WellFormed) : p.capabilities.WellFormed := by
  refine Capabilities.WellFormed.ofEntries fun e he => ?_
  obtain ⟨k, hk⟩ := mem_rows_iff.mp he
  obtain ⟨-, rfl⟩ := entry?_eq_some_iff.mp hk
  exact ⟨k.validName, hp.separated k⟩

theorem WellFormed.supports_iff_lists {p : Profile} (hp : p.WellFormed) {k : Known} {v : Nat} :
    p.supports k v = true ↔ p.capabilities.Lists k.name v := by
  rw [hp.supports_iff_holds, lists_capabilities_name]

/-- What is advertised is a list of just what is spoken. -/
theorem WellFormed.parse_advertisement {p : Profile} (hp : p.WellFormed) :
    Capabilities.parse p.advertisement = .ok p.capabilities :=
  hp.capabilities.parse_encode

theorem WellFormed.supports_advertisement {p : Profile} (hp : p.WellFormed) (k : Known) (v : Nat) :
    Listing.supports p.advertisement k v = p.supports k v := by
  unfold Listing.supports
  rw [hp.parse_advertisement]
  show p.capabilities.supports k.name v = p.supports k v
  rw [Bool.eq_iff_iff, hp.capabilities.supports_iff_lists, lists_capabilities_name,
    hp.supports_iff_holds]

/-! ### Profiles made from capabilities -/

theorem ofCapabilities_eq_ok_iff {c : Capabilities} {p : Profile} :
    ofCapabilities c = .ok p ↔
      (∀ name ∈ c.names, ∃ k : Known, k.name = name) ∧ p = ⟨fun k => c.spansOf k.name⟩ := by
  have hfind : (c.names.find? fun name => (Known.ofName? name).isNone) = none ↔
      ∀ name ∈ c.names, ∃ k : Known, k.name = name := by
    simp only [List.find?_eq_none, Option.isNone_iff_eq_none, Known.ofName?_eq_none_iff, not_not]
  rw [← hfind]
  unfold ofCapabilities
  cases c.names.find? fun name => (Known.ofName? name).isNone with
  | none => simp [eq_comm]
  | some name => simp

/-- The first of ascending names is the least. -/
private theorem find?_eq_some_iff_least {names : List String} (hnames : names.Pairwise (· < ·))
    {p : String → Bool} {name : String} :
    names.find? p = some name ↔
      name ∈ names ∧ p name = true ∧ ∀ other ∈ names, p other = true → name ≤ other := by
  induction names with
  | nil => simp
  | cons first rest ih =>
      obtain ⟨hfirst, hrest⟩ := List.pairwise_cons.mp hnames
      by_cases hp : p first = true
      · rw [List.find?_cons_of_pos hp, Option.some.injEq]
        refine ⟨fun h => ?_, fun h => ?_⟩
        · subst h
          refine ⟨by simp, hp, fun other hother _ => ?_⟩
          rcases List.mem_cons.mp hother with rfl | hother
          · exact String.le_refl _
          · exact String.lt_asymm (hfirst other hother)
        · obtain ⟨hmem, -, hleast⟩ := h
          rcases List.mem_cons.mp hmem with hname | hmem
          · exact hname.symm
          · exact absurd (hfirst name hmem) (hleast first (by simp) hp)
      · rw [List.find?_cons_of_neg hp, ih hrest]
        refine ⟨fun h => ?_, fun h => ?_⟩
        · obtain ⟨hmem, hname, hleast⟩ := h
          refine ⟨List.mem_cons_of_mem first hmem, hname, fun other hother hpo => ?_⟩
          rcases List.mem_cons.mp hother with rfl | hother
          · exact absurd hpo hp
          · exact hleast other hother hpo
        · obtain ⟨hmem, hname, hleast⟩ := h
          refine ⟨?_, hname, fun other hother => hleast other (List.mem_cons_of_mem first hother)⟩
          rcases List.mem_cons.mp hmem with rfl | hmem
          · exact absurd hname hp
          · exact hmem

/-- Refused are capabilities with a name that is not known, on account of the least one. -/
theorem ofCapabilities_eq_error_iff {c : Capabilities} (hc : c.WellFormed) {fault : Known.Fault} :
    ofCapabilities c = .error fault ↔
      ∃ name ∈ c.names, (¬ ∃ k : Known, k.name = name) ∧
        (∀ other ∈ c.names, (¬ ∃ k : Known, k.name = other) → name ≤ other) ∧
        fault = .noSuchName name := by
  have hfirst : ofCapabilities c = .error fault ↔
      ∃ name, (c.names.find? fun name => (Known.ofName? name).isNone) = some name ∧
        fault = .noSuchName name := by
    unfold ofCapabilities
    cases c.names.find? fun name => (Known.ofName? name).isNone with
    | none => simp
    | some name => simp [eq_comm]
  have hascending : c.names.Pairwise (· < ·) := List.pairwise_map.mpr hc.ascending
  rw [hfirst]
  simp only [find?_eq_some_iff_least hascending, Option.isNone_iff_eq_none,
    Known.ofName?_eq_none_iff, and_assoc]

theorem wellFormed_of_ofCapabilities {c : Capabilities} (hc : c.WellFormed) {p : Profile}
    (h : ofCapabilities c = .ok p) : p.WellFormed := by
  obtain ⟨-, rfl⟩ := ofCapabilities_eq_ok_iff.mp h
  exact ⟨fun k => hc.separated_spansOf k.name⟩

/-- A profile gives back the capabilities that it was made from. -/
theorem capabilities_of_ofCapabilities {c : Capabilities} (hc : c.WellFormed) {p : Profile}
    (h : ofCapabilities c = .ok p) : p.capabilities = c := by
  have hp := wellFormed_of_ofCapabilities hc h
  obtain ⟨hknown, rfl⟩ := ofCapabilities_eq_ok_iff.mp h
  refine Capabilities.eq_of_lists_iff hp.capabilities hc fun name v => ?_
  rw [lists_capabilities]
  simp only [hc.holds_spansOf]
  refine ⟨fun hlists => ?_, fun hlists => ?_⟩
  · obtain ⟨k, rfl, hv⟩ := hlists
    exact hv
  · obtain ⟨k, rfl⟩ := hknown name (hc.mem_names_iff.mpr ⟨v, hlists⟩)
    exact ⟨k, rfl, hlists⟩

end Profile

/-! ### Configured profiles -/

namespace Config

theorem profile_of_not_parse {s : String} {cause : Listing.Fault}
    (h : Capabilities.parse s = .error cause) :
    (Config.mk s).profile = .error (.unreadable cause) := by
  unfold profile
  rw [h]

theorem profile_of_ne {s : String} {c : Capabilities} (h : Capabilities.parse s = .ok c)
    (hne : c.encode ≠ s) : (Config.mk s).profile = .error (.notCanonical s c.encode) := by
  unfold profile
  rw [h]
  exact if_pos hne

theorem profile_of_eq {s : String} {c : Capabilities} (h : Capabilities.parse s = .ok c)
    (heq : c.encode = s) :
    (Config.mk s).profile = (Profile.ofCapabilities c).mapError .unknown := by
  unfold profile
  rw [h]
  simp only [heq, ne_eq, not_true, if_false]
  cases Profile.ofCapabilities c <;> rfl

theorem profile_eq_ok_iff {s : String} {p : Profile} :
    (Config.mk s).profile = .ok p ↔ ∃ c, Capabilities.parse s = .ok c ∧ c.encode = s ∧
      Profile.ofCapabilities c = .ok p := by
  cases hparse : Capabilities.parse s with
  | error cause =>
      rw [profile_of_not_parse hparse]
      simp
  | ok c =>
      by_cases heq : c.encode = s
      · rw [profile_of_eq hparse heq, Reading.mapError_eq_ok_iff]
        simp [heq]
      · rw [profile_of_ne hparse heq]
        simp [heq]

end Config

/-! ### All ways to a profile -/

namespace Profile

/-- The profiles that can come about. -/
inductive Reachable : Profile → Prop
  | native : Reachable Profile.native
  | configured {config : Config} {p : Profile} (h : config.profile = .ok p) : Reachable p
  | ofCapabilities {c : Capabilities} (hc : c.Reachable) {p : Profile}
      (h : Profile.ofCapabilities c = .ok p) : Reachable p

theorem wellFormed_native : native.WellFormed :=
  ⟨fun k => by cases k <;> decide⟩

theorem Reachable.wellFormed {p : Profile} (hp : p.Reachable) : p.WellFormed := by
  cases hp with
  | native => exact wellFormed_native
  | configured h =>
      obtain ⟨c, hparse, -, hprofile⟩ := Config.profile_eq_ok_iff.mp h
      exact wellFormed_of_ofCapabilities (Capabilities.wellFormed_of_parse hparse) hprofile
  | ofCapabilities hc h => exact wellFormed_of_ofCapabilities hc.wellFormed h

end Profile

end Subprotocol

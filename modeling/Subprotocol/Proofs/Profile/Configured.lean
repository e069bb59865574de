/-
Configurations are accepted exactly when canonical and known, and advertised verbatim.

A configuration is read, compared with its canonical text, and looked through for names that
are not known, in this order; the first of these that goes wrong is the fault, so a fault says
that everything before it went well.  If nothing goes wrong the profile gives back the
capabilities that the text lists.  What it advertises is then their canonical text, which is
the text that was configured.

The canonical text that a refusal offers is canonical itself, so only its names can be in
the way.
-/
import Subprotocol.Proofs.Capabilities.Canonical
import Subprotocol.Proofs.Profile.Lacking
import Subprotocol.Session

namespace Subprotocol

namespace Listing

/-- Some chunk of `s` is an entry called `name`. -/
def Mentions (s : List Char) (name : String) : Prop :=
  ∃ w tokens, Text.IsChunk s w ∧ IsEntry w name tokens

theorem mentions_iff_mem_names {s : String} {c : Capabilities} (h : Capabilities.parse s = .ok c)
    {name : String} : Mentions s.toList name ↔ name ∈ c.names :=
  (Capabilities.mem_names_iff_isEntry h).symm

end Listing

namespace Config

open Listing

/-! ### Accepted configurations -/

theorem exists_profile_iff {s : String} :
    (∃ p, (Config.mk s).profile = .ok p) ↔
      IsCanonical s ∧ ∀ name, Mentions s.toList name → ∃ k : Known, k.name = name := by
  cases hparse : Capabilities.parse s with
  | error cause =>
      rw [profile_of_not_parse hparse]
      simp [not_isCanonical_of_not_parse hparse]
  | ok c =>
      simp only [isCanonical_iff_of_parse hparse, mentions_iff_mem_names hparse]
      refine ⟨fun h => ?_, fun h => ?_⟩
      · obtain ⟨p, hp⟩ := h
        obtain ⟨d, hd, heq, hprofile⟩ := profile_eq_ok_iff.mp hp
        rw [hparse, Except.ok.injEq] at hd
        subst hd
        exact ⟨heq, (Profile.ofCapabilities_eq_ok_iff.mp hprofile).1⟩
      · obtain ⟨heq, hknown⟩ := h
        have hprofile := Profile.ofCapabilities_eq_ok_iff.mpr ⟨hknown, rfl⟩
        exact ⟨_, profile_eq_ok_iff.mpr ⟨c, hparse, heq, hprofile⟩⟩

variable {s : String} {p : Profile}

/-- An accepted text is advertised as it is. -/
theorem advertisement_of_profile (h : (Config.mk s).profile = .ok p) : p.advertisement = s := by
  obtain ⟨c, hparse, heq, hprofile⟩ := profile_eq_ok_iff.mp h
  have hc := Capabilities.wellFormed_of_parse hparse
  unfold Profile.advertisement
  rw [Profile.capabilities_of_ofCapabilities hc hprofile, heq]

/-- Nothing of an accepted text is lacking. -/
theorem review_of_profile (h : (Config.mk s).profile = .ok p) : p.review s = ⟨true, ""⟩ := by
  have hp : p.WellFormed := (Profile.Reachable.configured h).wellFormed
  rw [← hp.review_advertisement, advertisement_of_profile h]

/-- An accepted text offers what is spoken. -/
theorem supports_of_profile (h : (Config.mk s).profile = .ok p) (k : Known) (v : Nat) :
    p.supports k v = Listing.supports s k v := by
  have hp : p.WellFormed := (Profile.Reachable.configured h).wellFormed
  rw [← hp.supports_advertisement, advertisement_of_profile h]

/-! ### Refused configurations -/

/-- At fault is that a text cannot be read, else its form, else its least unknown name. -/
theorem profile_eq_error_iff {fault : Fault} :
    (Config.mk s).profile = .error fault ↔
      (∃ cause, Capabilities.parse s = .error cause ∧ fault = .unreadable cause) ∨
      (∃ t, canonical s = .ok t ∧ t ≠ s ∧ fault = .notCanonical s t) ∨
      (IsCanonical s ∧ ∃ name, Mentions s.toList name ∧ (¬ ∃ k : Known, k.name = name) ∧
        (∀ other, Mentions s.toList other → (¬ ∃ k : Known, k.name = other) → name ≤ other) ∧
        fault = .unknown (.noSuchName name)) := by
  cases hparse : Capabilities.parse s with
  | error cause =>
      rw [profile_of_not_parse hparse]
      simp [not_isCanonical_of_not_parse hparse, canonical, hparse, Except.map, eq_comm]
  | ok c =>
      have hc := Capabilities.wellFormed_of_parse hparse
      simp only [isCanonical_iff_of_parse hparse, mentions_iff_mem_names hparse,
        canonical_of_parse hparse, Except.ok.injEq, exists_eq_left', reduceCtorEq, false_and,
        exists_false, false_or]
      by_cases heq : c.encode = s
      · rw [profile_of_eq hparse heq, Reading.mapError_eq_error_iff]
        simp only [heq, ne_eq, not_true, false_and, false_or, true_and,
          Profile.ofCapabilities_eq_error_iff hc]
        refine ⟨fun h => ?_, fun h => ?_⟩
        · obtain ⟨_, ⟨name, hname, hunknown, hleast, rfl⟩, rfl⟩ := h
          exact ⟨name, hname, hunknown, hleast, rfl⟩
        · obtain ⟨name, hname, hunknown, hleast, rfl⟩ := h
          exact ⟨_, ⟨name, hname, hunknown, hleast, rfl⟩, rfl⟩
      · rw [profile_of_ne hparse heq]
        simp [heq, eq_comm]

/-- With a canonical text only a name can be wrong. -/
theorem fault_of_isCanonical (hs : IsCanonical s) {fault : Fault}
    (h : (Config.mk s).profile = .error fault) : ∃ cause, fault = .unknown cause := by
  rcases profile_eq_error_iff.mp h with ⟨cause, hparse, -⟩ | ⟨t, ht, hne, -⟩ | ⟨-, name, -, -, -, h⟩
  · exact absurd hs (not_isCanonical_of_not_parse hparse)
  · have hts : t = s := by
      unfold IsCanonical at hs
      rw [ht] at hs
      exact Option.some.inj hs
    exact absurd hts hne
  · exact ⟨_, h⟩

/-- The text that a refusal offers is canonical. -/
theorem isCanonical_of_notCanonical {given t : String}
    (h : (Config.mk s).profile = .error (.notCanonical given t)) : IsCanonical t := by
  rcases profile_eq_error_iff.mp h with ⟨cause, -, hfault⟩ | ⟨t', ht, -, hfault⟩ |
    ⟨-, name, -, -, -, hfault⟩
  · exact Fault.noConfusion hfault
  · obtain ⟨-, rfl⟩ := Fault.notCanonical.inj hfault
    obtain ⟨c, hparse, hc⟩ := Reading.map_eq_ok_iff.mp ht
    rw [← hc]
    exact (Capabilities.wellFormed_of_parse hparse).isCanonical_encode
  · exact Fault.noConfusion hfault

/-- **A configuration is accepted exactly when it is canonical and known, and is advertised
verbatim.**  A refused one says what is wrong first, and the canonical text that a refusal
offers has nothing wrong with it but its names. -/
theorem configured_verbatim (s : String) :
    ((∃ p, (Config.mk s).profile = .ok p) ↔
      IsCanonical s ∧ ∀ name, Mentions s.toList name → ∃ k : Known, k.name = name) ∧
    (∀ p, (Config.mk s).profile = .ok p →
      (Participant.ofProfile p).advertise = (s, ⟨p, some s⟩) ∧ p.review s = ⟨true, ""⟩ ∧
      ∀ k v, p.supports k v = Listing.supports s k v) ∧
    (∀ fault, (Config.mk s).profile = .error fault ↔
      (∃ cause, Capabilities.parse s = .error cause ∧ fault = .unreadable cause) ∨
      (∃ t, canonical s = .ok t ∧ t ≠ s ∧ fault = .notCanonical s t) ∨
      (IsCanonical s ∧ ∃ name, Mentions s.toList name ∧ (¬ ∃ k : Known, k.name = name) ∧
        (∀ other, Mentions s.toList other → (¬ ∃ k : Known, k.name = other) → name ≤ other) ∧
        fault = .unknown (.noSuchName name))) ∧
    (∀ given t, (Config.mk s).profile = .error (.notCanonical given t) →
      ∀ fault, (Config.mk t).profile = .error fault → ∃ cause, fault = .unknown cause) := by
  refine ⟨exists_profile_iff, fun p hp => ⟨?_, review_of_profile hp, supports_of_profile hp⟩,
    fun fault => profile_eq_error_iff, fun given t ht fault hfault => ?_⟩
  · show (p.advertisement, (⟨p, some p.advertisement⟩ : Participant)) = (s, ⟨p, some s⟩)
    rw [advertisement_of_profile hp]
  · exact fault_of_isCanonical (isCanonical_of_notCanonical ht) hfault

/-- The form comes before the names, and of two unknown names the lesser is at fault. -/
example :
    (Config.mk "Zebra=1 Aardvark=2").profile.map (fun _ => ()) =
      .error (.notCanonical "Zebra=1 Aardvark=2" "Aardvark=2 Zebra=1") ∧
    (Config.mk "Aardvark=2 Zebra=1").profile.map (fun _ => ()) =
      .error (.unknown (.noSuchName "Aardvark")) := by
  decide +kernel

end Config

end Subprotocol

/-
What a profile lacks is exact.

Seen as sets of name and version pairs, what is lacking is what is wanted less what the
profile lists.  Entry by entry, the versions of a known name that is spoken are taken away by
the walk along the spans of the profile, which ascend because they are separate; any other
name is left as it is, and the profile lists nothing under it.  An entry of which nothing is
left adds nothing when the result is collected.

The verdict on a list says no more than this set: whether it is empty, and its text.
-/
import Subprotocol.Proofs.Profile.View

namespace Subprotocol.Profile

/-! ### One entry -/

theorem name_lackingOf (p : Profile) (e : Entry) : (p.lackingOf e).name = e.name := by
  unfold lackingOf
  cases p.entryNamed? e.name <;> rfl

theorem holds_lackingOf {p : Profile} (hp : p.WellFormed) {e : Entry} {v : Nat} :
    (p.lackingOf e).spans.Holds v ↔ e.spans.Holds v ∧ ¬ p.capabilities.Lists e.name v := by
  unfold lackingOf
  cases hown : p.entryNamed? e.name with
  | none =>
      -- Nothing is spoken under that name, so nothing is listed under it.
      have hnone : ¬ p.capabilities.Lists e.name v := by
        intro hlists
        obtain ⟨k, hname, hv⟩ := lists_capabilities.mp hlists
        have hentry := entry?_eq_some_iff.mpr ⟨Spans.ne_nil_of_holds hv, rfl⟩
        rw [entryNamed?_eq_some_iff.mpr ⟨k, hname, hentry⟩] at hown
        exact Option.some_ne_none _ hown
      rw [and_iff_left hnone]
  | some own =>
      obtain ⟨k, hname, hentry⟩ := entryNamed?_eq_some_iff.mp hown
      obtain ⟨-, rfl⟩ := entry?_eq_some_iff.mp hentry
      rw [← hname, lists_capabilities_name]
      exact Spans.holds_remove (hp.separated k).ascending

/-! ### All entries -/

/-- **What is lacking is what is wanted and not listed.** -/
theorem lists_lacking {p : Profile} (hp : p.WellFormed) {c : Capabilities} {name : String}
    {v : Nat} :
    (p.lacking c).Lists name v ↔ c.Lists name v ∧ ¬ p.capabilities.Lists name v := by
  unfold lacking
  rw [Capabilities.lists_ofEntries]
  simp only [List.mem_map, exists_exists_and_eq_and, name_lackingOf, holds_lackingOf hp]
  refine ⟨fun h => ?_, fun h => ?_⟩
  · obtain ⟨e, he, rfl, hv, hnot⟩ := h
    exact ⟨⟨e, he, rfl, hv⟩, hnot⟩
  · obtain ⟨⟨e, he, rfl, hv⟩, hnot⟩ := h
    exact ⟨e, he, rfl, hv, hnot⟩

theorem lacking_isEmpty_iff {p : Profile} (hp : p.WellFormed) {c : Capabilities}
    (hc : c.WellFormed) :
    (p.lacking c).IsEmpty ↔ ∀ name v, c.Lists name v → p.capabilities.Lists name v := by
  rw [(hc.lacking p).isEmpty_iff]
  simp only [lists_lacking hp, not_and, not_not]

/-! ### The verdict on a list -/

theorem review_of_parse (p : Profile) {s : String} {wanted : Capabilities}
    (h : Capabilities.parse s = .ok wanted) :
    p.review s =
      if (p.lacking wanted).IsEmpty then ⟨true, ""⟩ else ⟨false, (p.lacking wanted).encode⟩ := by
  unfold review
  rw [h]

theorem review_of_not_parse (p : Profile) {s : String} {fault : Listing.Fault}
    (h : Capabilities.parse s = .error fault) : p.review s = ⟨false, s⟩ := by
  unfold review
  rw [h]

/-- A review is passed with a list that can be read and of which nothing is lacking. -/
theorem review_eq_passed_iff {p : Profile} {s : String} :
    p.review s = ⟨true, ""⟩ ↔
      ∃ wanted, Capabilities.parse s = .ok wanted ∧ (p.lacking wanted).IsEmpty := by
  cases hparse : Capabilities.parse s with
  | error fault => simp [p.review_of_not_parse hparse]
  | ok wanted => simp [p.review_of_parse hparse]

/-- Nothing that a profile advertises is lacking to itself. -/
theorem WellFormed.review_advertisement {p : Profile} (hp : p.WellFormed) :
    p.review p.advertisement = ⟨true, ""⟩ := by
  have hempty : (p.lacking p.capabilities).IsEmpty := by
    rw [lacking_isEmpty_iff hp hp.capabilities]
    exact fun name v hlists => hlists
  rw [p.review_of_parse hp.parse_advertisement, if_pos hempty]

/-- **What is lacking is exact**, and the verdict on a list names it. -/
theorem lacking_exact {p : Profile} (hp : p.Reachable) {c : Capabilities} (hc : c.Reachable) :
    (∀ name v, (p.lacking c).supports name v = true ↔
      c.supports name v = true ∧ ¬ ∃ k : Known, k.name = name ∧ p.supports k v = true) ∧
    (p.lacking c).WellFormed ∧
    ∀ s,
      (∀ wanted, Capabilities.parse s = .ok wanted → (p.lacking wanted).IsEmpty →
        p.review s = ⟨true, ""⟩) ∧
      (∀ wanted, Capabilities.parse s = .ok wanted → ¬ (p.lacking wanted).IsEmpty →
        p.review s = ⟨false, (p.lacking wanted).encode⟩) ∧
      (∀ fault, Capabilities.parse s = .error fault → p.review s = ⟨false, s⟩) := by
  have hlacking := hc.wellFormed.lacking p
  refine ⟨fun name v => ?_, hlacking, fun s => ⟨?_, ?_, fun fault => p.review_of_not_parse⟩⟩
  · simp only [hlacking.supports_iff_lists, lists_lacking hp.wellFormed, lists_capabilities,
      hc.wellFormed.supports_iff_lists, hp.wellFormed.supports_iff_holds]
  · intro wanted hparse hempty
    rw [p.review_of_parse hparse, if_pos hempty]
  · intro wanted hparse hempty
    rw [p.review_of_parse hparse, if_neg hempty]

/-- A configured profile, asked for all versions of a link, for a subprotocol that it does not
speak, for a name without a meaning, and for a version that it speaks. -/
theorem lacking_exact_configured :
    ∃ p c, (Config.mk "Cons=3 Link=0-1,4-4294967295").profile = .ok p ∧
      Capabilities.parse "Link=0-4294967295 Relay=1 Wombat=9 Cons=3" = .ok c ∧
      (p.lacking c).WellFormed ∧ ¬ (p.lacking c).supports "Link" 4294967295 = true ∧
      p.review "Link=0-4294967295 Relay=1 Wombat=9 Cons=3" =
        ⟨false, "Link=2-3 Relay=1 Wombat=9"⟩ ∧
      p.review "Link=4-3" = ⟨false, "Link=4-3"⟩ := by
  have hconfig : Capabilities.parse "Cons=3 Link=0-1,4-4294967295" =
      .ok ⟨[⟨"Cons", [⟨3, 3, by decide, by decide⟩]⟩,
        ⟨"Link", [⟨0, 1, by decide, by decide⟩, ⟨4, 4294967295, by decide, by decide⟩]⟩]⟩ := by
    decide +kernel
  have hwanted : Capabilities.parse "Link=0-4294967295 Relay=1 Wombat=9 Cons=3" =
      .ok ⟨[⟨"Cons", [⟨3, 3, by decide, by decide⟩]⟩,
        ⟨"Link", [⟨0, 4294967295, by decide, by decide⟩]⟩,
        ⟨"Relay", [⟨1, 1, by decide, by decide⟩]⟩,
        ⟨"Wombat", [⟨9, 9, by decide, by decide⟩]⟩]⟩ := by
    decide +kernel
  have hprofile := Config.profile_eq_ok_iff.mpr ⟨_, hconfig, by decide +kernel, rfl⟩
  obtain ⟨hpairs, hlacking, hverdict⟩ := lacking_exact (.configured hprofile) (.parse hwanted)
  refine ⟨_, _, hprofile, hwanted, hlacking, fun h => ?_, ?_, ?_⟩
  · exact ((hpairs "Link" 4294967295).mp h).2 ⟨.link, rfl, by decide +kernel⟩
  · rw [(hverdict _).2.1 _ hwanted (by decide +kernel)]
    decide +kernel
  · exact (hverdict _).2.2 (.inverted 4 3) (by decide +kernel)

end Subprotocol.Profile

/-
Verdicts on joined lists, and verdicts on verdicts.

What is lacking is a difference of sets, and a difference has two laws that the verdicts
inherit.  It can be taken of each part of a union, and taking it a second time changes nothing.
The walks behind the difference respect neither law step by step: joined lists are merged
before the versions are taken away, so the walk meets other spans than in either list alone.
Both sides are well formed, however, and are the same value once they list the same pairs.

The text of a verdict says as much as this value, because it is read back as what is lacking.
The empty text is that of nothing, so it stands for a list that is supported; and the text of a
list that cannot be read is the list itself, which holds more than blanks.
-/
import Subprotocol.Proofs.Capabilities.Canonical
import Subprotocol.Proofs.Listing.Joining
import Subprotocol.Proofs.Profile.Lacking

namespace Subprotocol

open Text

namespace Capabilities

variable {c d : Capabilities}

theorem WellFormed.encode_eq_empty_iff (hc : c.WellFormed) : c.encode = "" ↔ c.IsEmpty := by
  have hempty : Capabilities.empty.encode = "" := rfl
  rw [← hempty, hc.encode_eq_iff WellFormed.empty]
  refine ⟨fun h => ?_, fun h => ?_⟩
  · rw [h]
    rfl
  · exact congrArg Capabilities.mk h

theorem WellFormed.merge_isEmpty_iff (hc : c.WellFormed) (hd : d.WellFormed) :
    (c.merge d).IsEmpty ↔ c.IsEmpty ∧ d.IsEmpty := by
  simp only [(hc.merge hd).isEmpty_iff, hc.isEmpty_iff, hd.isEmpty_iff, lists_merge, not_or,
    forall_and]

end Capabilities

namespace Profile

open Capabilities (parse)

variable {p : Profile} {c d : Capabilities}

/-! ### Two laws of a difference -/

theorem lacking_merge (hp : p.WellFormed) (hc : c.WellFormed) (hd : d.WellFormed) :
    p.lacking (c.merge d) = (p.lacking c).merge (p.lacking d) := by
  have hmerged := (hc.lacking p).merge (hd.lacking p)
  refine Capabilities.eq_of_lists_iff ((hc.merge hd).lacking p) hmerged fun name v => ?_
  simp only [lists_lacking hp, Capabilities.lists_merge, or_and_right]

theorem lacking_lacking (hp : p.WellFormed) (hc : c.WellFormed) :
    p.lacking (p.lacking c) = p.lacking c := by
  have hlacking := hc.lacking p
  refine Capabilities.eq_of_lists_iff (hlacking.lacking p) hlacking fun name v => ?_
  simp only [lists_lacking hp, and_assoc, and_self]

/-! ### The two parts of a verdict -/

variable {s : String}

theorem supported_iff_of_parse (p : Profile) (h : parse s = .ok c) :
    (p.review s).supported = true ↔ (p.lacking c).IsEmpty := by
  rw [p.review_of_parse h]
  split <;> simp_all

/-- The empty text is no exception, since it is the text of nothing. -/
theorem missing_of_parse (p : Profile) (h : parse s = .ok c) :
    (p.review s).missing = (p.lacking c).encode := by
  have hlacking := (Capabilities.wellFormed_of_parse h).lacking p
  rw [p.review_of_parse h]
  split
  · rename_i hempty
    exact (hlacking.encode_eq_empty_iff.mpr hempty).symm
  · rfl

/-- The text of a verdict is read back as what is lacking. -/
theorem parse_missing (p : Profile) (h : parse s = .ok c) :
    parse (p.review s).missing = .ok (p.lacking c) := by
  rw [p.missing_of_parse h]
  exact ((Capabilities.wellFormed_of_parse h).lacking p).parse_encode

/-- Two verdicts with the same parts are the same. -/
theorem review_eq_of_lacking_eq {t : String} {d : Capabilities} (hs : parse s = .ok c)
    (ht : parse t = .ok d) (h : p.lacking c = p.lacking d) : p.review s = p.review t := by
  rw [p.review_of_parse hs, p.review_of_parse ht, h]

/-! ### Joined lists -/

/-- **The verdict on joined lists is put together from the verdicts on each.**  The joined list
is supported when both are, what is missing from it is what is missing from the two together,
and it is missing as a whole when one of the two cannot be read. -/
theorem review_joined (hp : p.Reachable) {blank : Char} (hblank : isBlank blank = true)
    (a b : String) :
    ((p.review (a ++ String.singleton blank ++ b)).supported = true ↔
      (p.review a).supported = true ∧ (p.review b).supported = true) ∧
    (∀ c d, parse a = .ok c → parse b = .ok d →
      Listing.canonical ((p.review a).missing ++ " " ++ (p.review b).missing) =
        .ok (p.review (a ++ String.singleton blank ++ b)).missing) ∧
    (∀ fault, parse a = .error fault ∨ parse b = .error fault →
      p.review (a ++ String.singleton blank ++ b) =
        ⟨false, a ++ String.singleton blank ++ b⟩) := by
  have hunread : ∀ fault, parse a = .error fault ∨ parse b = .error fault →
      p.review (a ++ String.singleton blank ++ b) = ⟨false, a ++ String.singleton blank ++ b⟩ := by
    intro fault h
    obtain ⟨first, hfirst⟩ := Capabilities.not_parse_joined hblank h
    exact p.review_of_not_parse hfirst
  refine ⟨?_, fun c d ha hb => ?_, hunread⟩
  · cases ha : parse a with
    | error fault =>
        rw [hunread fault (Or.inl ha), p.review_of_not_parse ha]
        simp
    | ok c =>
        cases hb : parse b with
        | error fault =>
            rw [hunread fault (Or.inr hb), p.review_of_not_parse hb]
            simp
        | ok d =>
            have hc := Capabilities.wellFormed_of_parse ha
            have hd := Capabilities.wellFormed_of_parse hb
            rw [p.supported_iff_of_parse (Capabilities.parse_joined_of_parse hblank ha hb),
              p.supported_iff_of_parse ha, p.supported_iff_of_parse hb,
              lacking_merge hp.wellFormed hc hd, (hc.lacking p).merge_isEmpty_iff (hd.lacking p)]
  · have hspace : isBlank ' ' = true := by decide
    have hmissing := Capabilities.parse_joined_of_parse hspace (p.parse_missing ha) (p.parse_missing hb)
    rw [← lacking_merge hp.wellFormed (Capabilities.wellFormed_of_parse ha)
      (Capabilities.wellFormed_of_parse hb)] at hmissing
    rw [p.missing_of_parse (Capabilities.parse_joined_of_parse hblank ha hb)]
    exact Listing.canonical_of_parse hmissing

/-- An ideographic space joins two lists that are lacking a version of the same link, and
versions side by side under a name without a meaning.  A newline joins a list with a fault. -/
theorem review_joined_overlapping :
    native.Reachable ∧ isBlank '\u3000' = true ∧
    (∃ c d, parse "Link=3-5 Wombat=2" = .ok c ∧ parse "Wombat=1 Cons=2 Link=5-6" = .ok d ∧
      Listing.canonical ((native.review "Link=3-5 Wombat=2").missing ++ " " ++
        (native.review "Wombat=1 Cons=2 Link=5-6").missing) =
        .ok (native.review ("Link=3-5 Wombat=2" ++ String.singleton '\u3000' ++
          "Wombat=1 Cons=2 Link=5-6")).missing) ∧
    native.review ("Link=3-5 Wombat=2" ++ String.singleton '\u3000' ++
      "Wombat=1 Cons=2 Link=5-6") = ⟨false, "Link=5-6 Wombat=1-2"⟩ ∧
    native.review ("Cons=1" ++ String.singleton '\n' ++ "Link=4-3") =
      ⟨false, "Cons=1" ++ String.singleton '\n' ++ "Link=4-3"⟩ ∧
    (native.review ("Cons=1" ++ String.singleton ' ' ++ "Cons=2 Link=1")).supported = true := by
  have hnative : native.Reachable := .native
  have hblank : isBlank '\u3000' = true := by decide
  have ha : parse "Link=3-5 Wombat=2" =
      .ok ⟨[⟨"Link", [⟨3, 5, by decide, by decide⟩]⟩, ⟨"Wombat", [⟨2, 2, by decide, by decide⟩]⟩]⟩ := by
    decide +kernel
  have hb : parse "Wombat=1 Cons=2 Link=5-6" =
      .ok ⟨[⟨"Cons", [⟨2, 2, by decide, by decide⟩]⟩, ⟨"Link", [⟨5, 6, by decide, by decide⟩]⟩,
        ⟨"Wombat", [⟨1, 1, by decide, by decide⟩]⟩]⟩ := by
    decide +kernel
  refine ⟨hnative, hblank, ⟨_, _, ha, hb, ?_⟩, by decide +kernel, ?_, ?_⟩
  · exact (review_joined hnative hblank _ _).2.1 _ _ ha hb
  · exact (review_joined hnative (by decide) _ _).2.2 (.inverted 4 3) (Or.inr (by decide +kernel))
  · exact (review_joined hnative (by decide) _ _).1.mpr (by decide +kernel)

/-! ### Verdicts on verdicts -/

/-- A list that cannot be read is missing as a whole, and is not empty. -/
theorem ne_empty_of_not_parse {fault : Listing.Fault} (h : parse s = .error fault) : s ≠ "" := by
  intro hs
  have hempty : parse "" = .ok Capabilities.empty := rfl
  rw [hs, hempty] at h
  simp at h

/-- **A review is a projection.**  What is missing from a list is found missing again, as it is
and with the same verdict, and a list is supported exactly when nothing is missing from it. -/
theorem review_missing (hp : p.Reachable) (s : String) :
    p.review (p.review s).missing = p.review s ∧
    ((p.review s).supported = true ↔ (p.review s).missing = "") := by
  cases hs : parse s with
  | error fault =>
      rw [p.review_of_not_parse hs]
      exact ⟨p.review_of_not_parse hs, by simp [ne_empty_of_not_parse hs]⟩
  | ok c =>
      have hc := Capabilities.wellFormed_of_parse hs
      refine ⟨?_, ?_⟩
      · exact review_eq_of_lacking_eq (p.parse_missing hs) hs (lacking_lacking hp.wellFormed hc)
      · rw [p.supported_iff_of_parse hs, p.missing_of_parse hs,
          (hc.lacking p).encode_eq_empty_iff]

/-- A configured profile reviews a list of which it lacks two versions of a link and a name
without a meaning, a list with a fault, and one of blanks. -/
theorem review_missing_configured :
    ∃ p, (Config.mk "Cons=3 Link=0-1,4-4294967295").profile = .ok p ∧
      p.review "Wombat=9 Link=0-4294967295" = ⟨false, "Link=2-3 Wombat=9"⟩ ∧
      p.review (p.review "Wombat=9 Link=0-4294967295").missing =
        p.review "Wombat=9 Link=0-4294967295" ∧
      p.review (p.review "Link=4-3 Cons").missing = ⟨false, "Link=4-3 Cons"⟩ ∧
      ((p.review " \t").supported = true ↔ (p.review " \t").missing = "") := by
  have hconfig : parse "Cons=3 Link=0-1,4-4294967295" =
      .ok ⟨[⟨"Cons", [⟨3, 3, by decide, by decide⟩]⟩,
        ⟨"Link", [⟨0, 1, by decide, by decide⟩, ⟨4, 4294967295, by decide, by decide⟩]⟩]⟩ := by
    decide +kernel
  have hprofile := Config.profile_eq_ok_iff.mpr ⟨_, hconfig, by decide +kernel, rfl⟩
  have hp := Reachable.configured hprofile
  refine ⟨_, hprofile, by decide +kernel, (review_missing hp _).1, ?_, (review_missing hp _).2⟩
  rw [(review_missing hp _).1]
  decide +kernel

end Profile

end Subprotocol

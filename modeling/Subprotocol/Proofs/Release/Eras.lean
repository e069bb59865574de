/-
Which era a release belongs to, and what is known of it.

The eras are looked through from the last one, and the first that has begun is taken.  It is the
latest of those that have, since the eras ascend by the releases they begin with: what stands
behind the one taken has not begun, and what stands before it begins earlier.  Two of the four
begin with a tagged release, so this is a matter of the order of age and not of numbers alone.

A release has no era if it is older than all of them.  Otherwise nothing is known of it in the last
era only, and to be in the last era it is enough that it has begun.  Two releases belong to the
same era if no era begins between them, because then the same eras have begun for both.
-/
import Subprotocol.Proofs.Reading
import Subprotocol.Proofs.Release.Order
import Subprotocol.Release.Era

namespace Subprotocol.Era

/-- `era` begins with the release `first`. -/
def Begins (era : Era) (first : Release) : Prop := Release.parse era.since = .ok first

/-- `era` has begun by the time of `r`, and none that has begins later. -/
structure IsCurrent (r : Release) (era : Era) : Prop where
  mem : era ∈ all
  begun : ∃ first, era.Begins first ∧ r.AtLeast first
  latest : ∀ first, era.Begins first → ∀ other ∈ all, ∀ later, other.Begins later →
    r.AtLeast later → first.AtLeast later

variable {era : Era} {r a b first : Release} {s t : String}

/-! ### The table of eras -/

/-- The releases that the eras begin with. -/
def beginnings : List Release := all.filterMap fun era => (Release.parse era.since).toOption

theorem beginnings_eq :
    beginnings = [⟨0, 2, 4, 19, .final⟩, ⟨0, 2, 7, 5, .final⟩, ⟨0, 2, 9, 1, .alpha "alpha"⟩,
      ⟨0, 2, 9, 3, .alpha "alpha"⟩] := by
  decide +kernel

theorem mem_beginnings_iff : first ∈ beginnings ↔ ∃ era ∈ all, era.Begins first := by
  unfold beginnings Begins
  simp only [List.mem_filterMap, Reading.toOption_eq_some_iff]

/-- The eras ascend, those that begin with tagged releases included. -/
theorem ascending_all :
    all.Pairwise fun x y => ∀ first, x.Begins first → ∀ later, y.Begins later → first.Older later := by
  have hascending : beginnings.Pairwise Release.Older := by
    rw [beginnings_eq]
    decide
  simp only [beginnings, List.pairwise_filterMap, Reading.toOption_eq_some_iff] at hascending
  exact hascending

/-- What stands before an era in the table begins before it does, and what stands behind it begins
after it. -/
theorem begins_of_split {before after : List Era} (hsplit : all = before ++ era :: after)
    (hfirst : era.Begins first) :
    (∀ x ∈ before, ∀ earlier, x.Begins earlier → earlier.Older first) ∧
    ∀ x ∈ after, ∀ later, x.Begins later → first.Older later := by
  have hascending := ascending_all
  rw [hsplit, List.pairwise_append, List.pairwise_cons] at hascending
  obtain ⟨-, ⟨hafter, -⟩, hbefore⟩ := hascending
  constructor
  · intro x hx earlier hearlier
    exact hbefore x hx era List.mem_cons_self earlier hearlier first hfirst
  · intro x hx
    exact hafter x hx first hfirst

/-- Nothing is listed in the last era only. -/
theorem listing_eq_empty_iff (h : era ∈ all) :
    era.listing = "" ↔ era.Begins ⟨0, 2, 9, 3, .alpha "alpha"⟩ := by
  have htable : ∀ era ∈ all,
      era.listing = "" ↔ Release.parse era.since = .ok ⟨0, 2, 9, 3, .alpha "alpha"⟩ := by
    decide +kernel
  exact htable era h

/-! ### The era that is taken -/

theorem hasBegun_iff : hasBegun r era = true ↔ ∃ first, era.Begins first ∧ r.AtLeast first := by
  unfold hasBegun Begins
  cases Release.parse era.since with
  | error fault => simp
  | ok first => simp

theorem Begins.unique (ha : era.Begins a) (hb : era.Begins b) : a = b :=
  Except.ok.inj (ha.symm.trans hb)

private theorem find?_reverse_eq_some_iff {l : List Era} {p : Era → Bool} :
    l.reverse.find? p = some era ↔
      p era = true ∧ ∃ before after, l = before ++ era :: after ∧ ∀ x ∈ after, ¬ p x = true := by
  rw [List.find?_eq_some_iff_append]
  refine and_congr_right fun _ => ?_
  constructor
  · intro h
    obtain ⟨after, before, hl, hafter⟩ := h
    refine ⟨before.reverse, after.reverse, ?_, by simpa using hafter⟩
    rw [← List.reverse_reverse l, hl]
    simp
  · intro h
    obtain ⟨before, after, rfl, hafter⟩ := h
    exact ⟨after.reverse, before.reverse, by simp, by simpa using hafter⟩

/-- **The era that is taken is the latest that has begun.** -/
theorem ofRelease?_eq_some_iff : ofRelease? r = some era ↔ era.IsCurrent r := by
  unfold ofRelease?
  simp only [find?_reverse_eq_some_iff, hasBegun_iff]
  constructor
  · intro h
    obtain ⟨hbegun, before, after, hsplit, hafter⟩ := h
    refine ⟨by simp [hsplit], hbegun, fun first hfirst other hother later hlater hr => ?_⟩
    obtain ⟨hbefore, -⟩ := begins_of_split hsplit hfirst
    rw [hsplit] at hother
    rcases List.mem_append.mp hother with hother | hother
    · exact (hbefore other hother later hlater).atLeast
    rcases List.mem_cons.mp hother with rfl | hother
    · rw [hfirst.unique hlater]
      exact Release.AtLeast.refl later
    · exact absurd ⟨later, hlater, hr⟩ (hafter other hother)
  · intro h
    obtain ⟨before, after, hsplit⟩ := List.append_of_mem h.mem
    refine ⟨h.begun, before, after, hsplit, fun other hother hbegun => ?_⟩
    obtain ⟨first, hfirst, -⟩ := h.begun
    obtain ⟨-, hafter⟩ := begins_of_split hsplit hfirst
    obtain ⟨later, hlater, hr⟩ := hbegun
    have hmem : other ∈ all := by simp [hsplit, hother]
    have hatLeast := h.latest first hfirst other hmem later hlater hr
    exact Release.atLeast_iff.mp hatLeast (hafter other hother later hlater)

theorem exists_isCurrent_iff : (∃ era, IsCurrent r era) ↔ r.AtLeast ⟨0, 2, 4, 19, .final⟩ := by
  have holdest : ∀ first ∈ beginnings, first.AtLeast ⟨0, 2, 4, 19, .final⟩ := by
    rw [beginnings_eq]
    decide
  constructor
  · intro h
    obtain ⟨era, h⟩ := h
    obtain ⟨first, hfirst, hr⟩ := h.begun
    exact hr.trans (holdest first (mem_beginnings_iff.mpr ⟨era, h.mem, hfirst⟩))
  · intro h
    obtain ⟨era, hera, hfirst⟩ : ∃ era ∈ all, era.Begins ⟨0, 2, 4, 19, .final⟩ := by
      rw [← mem_beginnings_iff, beginnings_eq]
      exact List.mem_cons_self
    have hsome : (ofRelease? r).isSome = true := by
      unfold ofRelease?
      rw [List.find?_isSome]
      exact ⟨era, List.mem_reverse.mpr hera, hasBegun_iff.mpr ⟨_, hfirst, h⟩⟩
    obtain ⟨current, hcurrent⟩ := Option.isSome_iff_exists.mp hsome
    exact ⟨current, ofRelease?_eq_some_iff.mp hcurrent⟩

/-- The last era is that of the releases from its first one on. -/
theorem IsCurrent.begins_last_iff (h : IsCurrent r era) :
    era.Begins ⟨0, 2, 9, 3, .alpha "alpha"⟩ ↔ r.AtLeast ⟨0, 2, 9, 3, .alpha "alpha"⟩ := by
  obtain ⟨first, hfirst, hr⟩ := h.begun
  have hnewest : ∀ first ∈ beginnings, (⟨0, 2, 9, 3, .alpha "alpha"⟩ : Release).AtLeast first := by
    rw [beginnings_eq]
    decide
  constructor
  · intro hlast
    rwa [hlast.unique hfirst]
  · intro hlast
    obtain ⟨last, hmem, hbegins⟩ : ∃ era ∈ all, era.Begins ⟨0, 2, 9, 3, .alpha "alpha"⟩ := by
      rw [← mem_beginnings_iff, beginnings_eq]
      decide
    have hle := hnewest first (mem_beginnings_iff.mpr ⟨era, h.mem, hfirst⟩)
    rwa [hle.antisymm (h.latest first hfirst last hmem _ hbegins hlast)]

private theorem IsCurrent.congr (h : ∀ first ∈ beginnings, a.AtLeast first ↔ b.AtLeast first)
    (ha : IsCurrent a era) : IsCurrent b era := by
  refine ⟨ha.mem, ?_, fun first hfirst other hother later hlater hb => ?_⟩
  · obtain ⟨first, hfirst, hbegun⟩ := ha.begun
    exact ⟨first, hfirst, (h first (mem_beginnings_iff.mpr ⟨era, ha.mem, hfirst⟩)).mp hbegun⟩
  · have hbegun := (h later (mem_beginnings_iff.mpr ⟨other, hother, hlater⟩)).mpr hb
    exact ha.latest first hfirst other hother later hlater hbegun

/-- The same eras have begun for two releases if none begins between them. -/
theorem ofRelease?_eq_of_no_beginning (hab : b.AtLeast a)
    (h : ∀ first ∈ beginnings, ¬ (a.Older first ∧ b.AtLeast first)) :
    ofRelease? a = ofRelease? b := by
  have hsame : ∀ first ∈ beginnings, a.AtLeast first ↔ b.AtLeast first := by
    intro first hfirst
    refine ⟨hab.trans, fun hb => ?_⟩
    rw [Release.atLeast_iff]
    exact fun holder => h first hfirst ⟨holder, hb⟩
  refine Option.ext fun era => ?_
  rw [ofRelease?_eq_some_iff, ofRelease?_eq_some_iff]
  exact ⟨IsCurrent.congr hsame, IsCurrent.congr fun first hfirst => (hsame first hfirst).symm⟩

/-! ### What is known of a name -/

theorem listingOf_of_not_parse {fault : Release.Fault} (h : Release.parse s = .error fault) :
    listingOf s = "" := by
  unfold listingOf
  rw [h]

theorem listingOf_of_parse (h : Release.parse s = .ok r) :
    listingOf s = ((ofRelease? r).map listing).getD "" := by
  unfold listingOf
  rw [h]
  cases hera : ofRelease? r with
  | none => simp [hera]
  | some era => simp [hera]

theorem listingOf_of_isCurrent (h : Release.parse s = .ok r) (hera : IsCurrent r era) :
    listingOf s = era.listing := by
  rw [listingOf_of_parse h, ofRelease?_eq_some_iff.mpr hera]
  rfl

theorem listingOf_of_no_era (h : Release.parse s = .ok r) (hnone : ¬ ∃ era, IsCurrent r era) :
    listingOf s = "" := by
  have hera : ofRelease? r = none := by
    refine Option.eq_none_iff_forall_ne_some.mpr fun era hera => ?_
    exact hnone ⟨era, ofRelease?_eq_some_iff.mp hera⟩
  rw [listingOf_of_parse h, hera]
  rfl

theorem listingOf_eq_empty_iff_of_parse (h : Release.parse s = .ok r) :
    listingOf s = "" ↔ r.Older ⟨0, 2, 4, 19, .final⟩ ∨ r.AtLeast ⟨0, 2, 9, 3, .alpha "alpha"⟩ := by
  by_cases hold : r.Older ⟨0, 2, 4, 19, .final⟩
  · have hnone : ¬ ∃ era, IsCurrent r era := by
      rw [exists_isCurrent_iff, Release.atLeast_iff, not_not]
      exact hold
    simp [listingOf_of_no_era h hnone, hold]
  · obtain ⟨era, hera⟩ := exists_isCurrent_iff.mpr (Release.atLeast_iff.mpr hold)
    rw [listingOf_of_isCurrent h hera, listing_eq_empty_iff hera.mem, hera.begins_last_iff,
      or_iff_right hold]

/-- **What is known of a name is what its era lists.**  That is the latest era that has begun by
the time of the release; nothing is known of a text that names none, of a release before the first
era, and of one in the last.  All that counts is which eras have begun. -/
theorem listingOf_exact :
    (∀ s r era, Release.parse s = .ok r → IsCurrent r era → listingOf s = era.listing) ∧
    (∀ r, (∃ era, IsCurrent r era) ↔ r.AtLeast ⟨0, 2, 4, 19, .final⟩) ∧
    (∀ s, listingOf s = "" ↔
      (∃ fault, Release.parse s = .error fault) ∨
      ∃ r, Release.parse s = .ok r ∧
        (r.Older ⟨0, 2, 4, 19, .final⟩ ∨ r.AtLeast ⟨0, 2, 9, 3, .alpha "alpha"⟩)) ∧
    ∀ s t a b, Release.parse s = .ok a → Release.parse t = .ok b → b.AtLeast a →
      (∀ era ∈ all, ∀ first, era.Begins first → ¬ (a.Older first ∧ b.AtLeast first)) →
      listingOf s = listingOf t := by
  refine ⟨fun s r era => listingOf_of_isCurrent, fun r => exists_isCurrent_iff, fun s => ?_, ?_⟩
  · cases h : Release.parse s with
    | error fault => simp [listingOf_of_not_parse h]
    | ok r => simp [listingOf_eq_empty_iff_of_parse h]
  · intro s t a b hs ht hab hbetween
    have hnone : ∀ first ∈ beginnings, ¬ (a.Older first ∧ b.AtLeast first) := by
      intro first hfirst
      obtain ⟨era, hera, hbegins⟩ := mem_beginnings_iff.mp hfirst
      exact hbetween era hera first hbegins
    rw [listingOf_of_parse hs, listingOf_of_parse ht, ofRelease?_eq_of_no_beginning hab hnone]

/-- A candidate for the release that begins the second era is still in the first, like the release
that begins that one.  A tag of no class with the numbers of the last era makes a release of it. -/
theorem listingOf_exact_tagged :
    Release.parse "Tor 0.2.7.5-rc (git-1f)" = .ok ⟨0, 2, 7, 5, .candidate "rc"⟩ ∧
    (∃ era, IsCurrent ⟨0, 2, 7, 5, .candidate "rc"⟩ era ∧
      listingOf "Tor 0.2.7.5-rc (git-1f)" = era.listing) ∧
    listingOf "Tor 0.2.7.5-rc (git-1f)" =
      "Cons=1 Desc=1 DirCache=1 HSDir=1 HSIntro=3 HSRend=1 Link=1-4 LinkAuth=1 Microdesc=1 Relay=1-2" ∧
    listingOf "0.2.4.19" = listingOf "Tor 0.2.7.5-rc (git-1f)" ∧
    listingOf "0.2.9.3-aaa" = "" := by
  have hfirst : Release.parse "0.2.4.19" = .ok ⟨0, 2, 4, 19, .final⟩ := by decide +kernel
  have hcandidate : Release.parse "Tor 0.2.7.5-rc (git-1f)" = .ok ⟨0, 2, 7, 5, .candidate "rc"⟩ := by
    decide +kernel
  have htagged : Release.parse "0.2.9.3-aaa" = .ok ⟨0, 2, 9, 3, .other "aaa"⟩ := by decide +kernel
  have hnone : ∀ first ∈ beginnings, ¬ ((⟨0, 2, 4, 19, .final⟩ : Release).Older first ∧
      (⟨0, 2, 7, 5, .candidate "rc"⟩ : Release).AtLeast first) := by
    rw [beginnings_eq]
    decide
  obtain ⟨hlisting, hexists, hempty, hsame⟩ := listingOf_exact
  obtain ⟨era, hera⟩ := (hexists ⟨0, 2, 7, 5, .candidate "rc"⟩).mpr (by decide)
  refine ⟨hcandidate, ⟨era, hera, hlisting _ _ _ hcandidate hera⟩, by decide +kernel, ?_, ?_⟩
  · refine hsame _ _ _ _ hfirst hcandidate (by decide) fun era hera first hbegins => ?_
    exact hnone first (mem_beginnings_iff.mpr ⟨era, hera, hbegins⟩)
  · exact (hempty _).mpr (Or.inr ⟨_, htagged, Or.inr (by decide)⟩)

end Subprotocol.Era

/-
What releases speak only grows until they say it themselves.

What an era lists is what some profile advertises.  The profiles of the eras are of one kind, and
differ in which versions they speak of the documents of the network and of rendezvous.  Each of
them lies within the next, span by span, and the last of them within the native profile.

Everything else follows from the order of age: a later release is in the same era or in one further
on, and short of the last era that one lists more.  The last era lists nothing, which is why the
growth ends there.
-/
import Subprotocol.Proofs.Profile.Coverage
import Subprotocol.Proofs.Release.Eras

namespace Subprotocol

namespace Era

/-! ### The profiles of the eras -/

/-- The versions from `low` to `high`, with both conditions on the bounds in one. -/
def span (low high : Nat) (h : low ≤ high ∧ high ≤ lastVersion) : Span := ⟨low, high, h.1, h.2⟩

/-- What is spoken in an era that knows these versions of the documents that the network agrees on,
and these of rendezvous. -/
def profile (documents rendezvous : Span) : Profile where
  spans
    | .link => [span 1 4 (by decide)]
    | .relay => [span 1 2 (by decide)]
    | .hsIntro => [span 3 3 (by decide)]
    | .linkAuth | .dirCache | .hsDir => [span 1 1 (by decide)]
    | .hsRend => [rendezvous]
    | .desc | .microdesc | .cons => [documents]

/-- What is spoken in each era but the last. -/
def profiles : List Profile :=
  let one := span 1 1 (by decide)
  let two := span 1 2 (by decide)
  [profile one one, profile two one, profile two two]

theorem wellFormed_profile (documents rendezvous : Span) :
    (profile documents rendezvous).WellFormed :=
  ⟨fun k => by cases k <;> exact List.pairwise_singleton _ _⟩

theorem wellFormed_of_mem_profiles {p : Profile} (h : p ∈ profiles) : p.WellFormed := by
  simp only [profiles, List.mem_cons, List.not_mem_nil, or_false] at h
  rcases h with rfl | rfl | rfl <;> exact wellFormed_profile _ _

theorem listings_eq : all.map listing = profiles.map Profile.advertisement ++ [""] := by
  decide +kernel

/-- Each profile lies within the later ones, and all of them within the native one. -/
theorem within_profiles : (profiles ++ [Profile.native]).Pairwise Profile.Within := by
  decide

variable {a b : Release} {x y : Era}

/-- An era lists nothing, or what some profile advertises. -/
theorem listing_cases (h : x ∈ all) :
    x.listing = "" ∨ ∃ p ∈ profiles, p.advertisement = x.listing := by
  have hmem : x.listing ∈ profiles.map Profile.advertisement ++ [""] := by
    rw [← listings_eq]
    exact List.mem_map_of_mem h
  rcases List.mem_append.mp hmem with hmem | hmem
  · exact Or.inr (List.mem_map.mp hmem)
  · exact Or.inl (List.mem_singleton.mp hmem)

theorem isCanonical_listing (h : x ∈ all) : Listing.IsCanonical x.listing := by
  rcases listing_cases h with hempty | hprofile
  · rw [hempty]
    decide +kernel
  · obtain ⟨p, hp, hlisting⟩ := hprofile
    rw [← hlisting]
    exact (wellFormed_of_mem_profiles hp).capabilities.isCanonical_encode

/-- The native profile lacks nothing of what an era lists. -/
theorem review_listing (h : x ∈ all) : Profile.native.review x.listing = ⟨true, ""⟩ := by
  rcases listing_cases h with hempty | hprofile
  · rw [hempty]
    decide +kernel
  · obtain ⟨p, hp, hlisting⟩ := hprofile
    obtain ⟨-, -, hnative⟩ := List.pairwise_append.mp within_profiles
    have hwithin := hnative p hp Profile.native (List.mem_singleton_self _)
    rw [← hlisting]
    exact hwithin.review_advertisement (wellFormed_of_mem_profiles hp) Profile.wellFormed_native

/-! ### From era to era -/

/-- A later release is in the same era, or in one further down the table. -/
theorem IsCurrent.eq_or_of_pairwise {R : Era → Era → Prop} (hR : all.Pairwise R)
    (hx : IsCurrent a x) (hy : IsCurrent b y) (hab : b.AtLeast a) : x = y ∨ R x y := by
  obtain ⟨before, after, hsplit⟩ := List.append_of_mem hx.mem
  obtain ⟨first, hfirst, ha⟩ := hx.begun
  have hmem := hy.mem
  rw [hsplit] at hmem
  rcases List.mem_append.mp hmem with hmem | hmem
  · -- The era of `a` has begun for `b` as well, so that of `b` is no earlier one.
    obtain ⟨earlier, hearlier, -⟩ := hy.begun
    have hlatest := hy.latest earlier hearlier x hx.mem first hfirst (hab.trans ha)
    have holder := (begins_of_split hsplit hfirst).1 y hmem earlier hearlier
    exact absurd holder (Release.atLeast_iff.mp hlatest)
  rcases List.mem_cons.mp hmem with heq | hmem
  · exact Or.inl heq.symm
  · rw [hsplit, List.pairwise_append, List.pairwise_cons] at hR
    obtain ⟨-, ⟨hafter, -⟩, -⟩ := hR
    exact Or.inr (hafter y hmem)

/-- From one era to any later one that lists anything, the listing grows. -/
theorem supports_mono_all :
    all.Pairwise fun x y => y.listing = "" ∨ ∀ k v,
      Listing.supports x.listing k v = true → Listing.supports y.listing k v = true := by
  have hlistings : (all.map listing).Pairwise fun s t => t = "" ∨ ∀ k v,
      Listing.supports s k v = true → Listing.supports t k v = true := by
    obtain ⟨hwithin, -, -⟩ := List.pairwise_append.mp within_profiles
    rw [listings_eq, List.pairwise_append, List.pairwise_map]
    refine ⟨hwithin.imp_of_mem fun hp hq h => Or.inr fun k v => ?_, List.pairwise_singleton _ _,
      fun s _ t ht => Or.inl (List.mem_singleton.mp ht)⟩
    exact h.supports_advertisement (wellFormed_of_mem_profiles hp) (wellFormed_of_mem_profiles hq)
  exact List.pairwise_map.mp hlistings

/-- An era that lists anything lists what the eras before it list. -/
theorem IsCurrent.supports_mono (hx : IsCurrent a x) (hy : IsCurrent b y) (hab : b.AtLeast a)
    (hne : y.listing ≠ "") {k : Known} {v : Nat} (hv : Listing.supports x.listing k v = true) :
    Listing.supports y.listing k v = true := by
  rcases hx.eq_or_of_pairwise supports_mono_all hy hab with rfl | hlater
  · exact hv
  · exact Or.resolve_left hlater hne k v hv

/-! ### What is known of a name -/

/-- What is known of a name is the listing of some era, the last one if it is nothing. -/
theorem exists_listingOf_eq (s : String) : ∃ era ∈ all, listingOf s = era.listing := by
  have hlast : ∃ era ∈ all, "" = era.listing := by decide
  cases h : Release.parse s with
  | error fault =>
      rw [listingOf_of_not_parse h]
      exact hlast
  | ok r =>
      by_cases hera : ∃ era, IsCurrent r era
      · obtain ⟨era, hera⟩ := hera
        exact ⟨era, hera.mem, listingOf_of_isCurrent h hera⟩
      · rw [listingOf_of_no_era h hera]
        exact hlast

/-- **What is known of releases grows with their age, up to those that advertise for themselves.**
It is a canonical list at any time, and one that is supported natively. -/
theorem listingOf_grows :
    (∀ s t a b, Release.parse s = .ok a → Release.parse t = .ok b → b.AtLeast a →
      b.Older ⟨0, 2, 9, 3, .alpha "alpha"⟩ → ∀ k v,
        Listing.supports (listingOf s) k v = true → Listing.supports (listingOf t) k v = true) ∧
    ∀ s, Listing.IsCanonical (listingOf s) ∧
      Profile.native.review (listingOf s) = ⟨true, ""⟩ := by
  refine ⟨fun s t a b hs ht hab hb k v hv => ?_, fun s => ?_⟩
  · by_cases hera : ∃ era, IsCurrent a era
    · have hbegun := hab.trans (exists_isCurrent_iff.mp hera)
      obtain ⟨x, hx⟩ := hera
      obtain ⟨y, hy⟩ := exists_isCurrent_iff.mpr hbegun
      have hne : y.listing ≠ "" := by
        rw [ne_eq, listing_eq_empty_iff hy.mem, hy.begins_last_iff, Release.atLeast_iff, not_not]
        exact hb
      rw [listingOf_of_isCurrent hs hx] at hv
      rw [listingOf_of_isCurrent ht hy]
      exact hx.supports_mono hy hab hne hv
    · rw [listingOf_of_no_era hs hera] at hv
      exact nomatch hv
  · obtain ⟨era, hmem, hlisting⟩ := exists_listingOf_eq s
    rw [hlisting]
    exact ⟨isCanonical_listing hmem, review_listing hmem⟩

/-- From a candidate of the second era to a tagged release of the third, which is known to speak
one more version of a rendezvous; and a release of the last era. -/
theorem listingOf_grows_tagged :
    Release.parse "Tor 0.2.9.1-alpha-dev" = .ok ⟨0, 2, 9, 1, .alpha "alpha-dev"⟩ ∧
    Release.parse "Tor 0.2.7.5 (git-1f)" = .ok ⟨0, 2, 7, 5, .final⟩ ∧
    (⟨0, 2, 9, 1, .alpha "alpha-dev"⟩ : Release).AtLeast ⟨0, 2, 7, 5, .final⟩ ∧
    (⟨0, 2, 9, 1, .alpha "alpha-dev"⟩ : Release).Older ⟨0, 2, 9, 3, .alpha "alpha"⟩ ∧
    Listing.supports (listingOf "Tor 0.2.7.5 (git-1f)") .microdesc 2 = true ∧
    Listing.supports (listingOf "Tor 0.2.9.1-alpha-dev") .microdesc 2 = true ∧
    ¬ Listing.supports (listingOf "Tor 0.2.7.5 (git-1f)") .hsRend 2 = true ∧
    Listing.supports (listingOf "Tor 0.2.9.1-alpha-dev") .hsRend 2 = true ∧
    Profile.native.review (listingOf "0.2.9.3-aaa") = ⟨true, ""⟩ := by
  obtain ⟨hgrows, hsupported⟩ := listingOf_grows
  have hearlier : Release.parse "Tor 0.2.7.5 (git-1f)" = .ok ⟨0, 2, 7, 5, .final⟩ := by decide +kernel
  have hlater : Release.parse "Tor 0.2.9.1-alpha-dev" = .ok ⟨0, 2, 9, 1, .alpha "alpha-dev"⟩ := by
    decide +kernel
  have hspoken : Listing.supports (listingOf "Tor 0.2.7.5 (git-1f)") .microdesc 2 = true := by
    decide +kernel
  exact ⟨hlater, hearlier, by decide, by decide, hspoken,
    hgrows _ _ _ _ hearlier hlater (by decide) (by decide) _ _ hspoken, by decide +kernel,
    by decide +kernel, (hsupported _).2⟩

end Era

end Subprotocol

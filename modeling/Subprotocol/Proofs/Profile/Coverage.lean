/-
When one profile covers another.

A profile covers another one when it speaks all that the other speaks.  This can be told from
what the two list, since a profile lists known names only, and it holds where every span of the
other lies within one of its own.  Nothing that the other is asked for and speaks is then lacking,
so the profile passes every review that the other passes.

What the network asks for can be configured, and the profiles of these configurations lie within
the native one.  So the lists are canonical, and whoever covers the native profile meets them.
-/
import Subprotocol.Proofs.Profile.Configured
import Subprotocol.Requirements

namespace Subprotocol

namespace Profile

/-- `q` speaks everything that `p` speaks. -/
def Covers (q p : Profile) : Prop :=
  ∀ k v, v ≤ lastVersion → p.supports k v = true → q.supports k v = true

variable {p q : Profile}

theorem covers_iff_lists (hp : p.WellFormed) (hq : q.WellFormed) :
    q.Covers p ↔ ∀ name v, p.capabilities.Lists name v → q.capabilities.Lists name v := by
  refine ⟨fun h => ?_, fun h => ?_⟩
  · intro name v hlists
    obtain ⟨k, rfl, -⟩ := lists_capabilities.mp hlists
    have hbound := Capabilities.le_lastVersion_of_lists hlists
    exact hq.supports_iff_lists.mp (h k v hbound (hp.supports_iff_lists.mpr hlists))
  · intro k v _ hv
    exact hq.supports_iff_lists.mpr (h k.name v (hp.supports_iff_lists.mp hv))

theorem lacking_isEmpty_iff_covers (hp : p.WellFormed) (hq : q.WellFormed) :
    (q.lacking p.capabilities).IsEmpty ↔ q.Covers p := by
  rw [lacking_isEmpty_iff hq hp.capabilities, covers_iff_lists hp hq]

/-- **To speak more is never to lack more.**  A review that `p` passes is passed by every
profile that covers `p`. -/
theorem Covers.review {s : String} (h : q.Covers p) (hp : p.WellFormed) (hq : q.WellFormed)
    (hreview : p.review s = ⟨true, ""⟩) : q.review s = ⟨true, ""⟩ := by
  obtain ⟨wanted, hparse, hempty⟩ := review_eq_passed_iff.mp hreview
  have hwanted := Capabilities.wellFormed_of_parse hparse
  refine review_eq_passed_iff.mpr ⟨wanted, hparse, ?_⟩
  rw [lacking_isEmpty_iff hp hwanted] at hempty
  rw [lacking_isEmpty_iff hq hwanted]
  exact fun name v hv => (covers_iff_lists hp hq).mp h name v (hempty name v hv)

/-! ### One profile within another -/

/-- Every span of `p` lies within a span of `q`. -/
def Within (p q : Profile) : Prop :=
  ∀ k ∈ Known.all, ∀ s ∈ p.spans k, ∃ t ∈ q.spans k, t.low ≤ s.low ∧ s.high ≤ t.high

instance (p q : Profile) : Decidable (p.Within q) :=
  inferInstanceAs (Decidable (∀ k ∈ Known.all, _))

variable {k : Known} {v : Nat}

theorem Within.holds (h : p.Within q) (hv : (p.spans k).Holds v) : (q.spans k).Holds v := by
  obtain ⟨s, hs, hv⟩ := hv
  obtain ⟨t, ht, hlow, hhigh⟩ := h k k.mem_all s hs
  exact ⟨t, ht, Nat.le_trans hlow hv.1, Nat.le_trans hv.2 hhigh⟩

theorem Within.supports_advertisement (h : p.Within q) (hp : p.WellFormed) (hq : q.WellFormed)
    (hv : Listing.supports p.advertisement k v = true) :
    Listing.supports q.advertisement k v = true := by
  rw [hp.supports_advertisement, hp.supports_iff_holds] at hv
  rw [hq.supports_advertisement, hq.supports_iff_holds]
  exact h.holds hv

theorem Within.covers (h : p.Within q) (hp : p.WellFormed) (hq : q.WellFormed) : q.Covers p := by
  intro k v _ hv
  rw [hp.supports_iff_holds] at hv
  rw [hq.supports_iff_holds]
  exact h.holds hv

theorem Within.review_advertisement (h : p.Within q) (hp : p.WellFormed) (hq : q.WellFormed) :
    q.review p.advertisement = ⟨true, ""⟩ :=
  (h.covers hp hq).review hp hq hp.review_advertisement

end Profile

/-! ### The requirements of the network -/

namespace Requirements

/-- What is asked for can be configured, and lies within the native profile. -/
theorem exists_profile_within {s : String} (h : s ∈ all) :
    ∃ p, (Config.mk s).profile = .ok p ∧ p.Within .native := by
  have hwithin : ∀ s ∈ all,
      (Config.mk s).profile.map (fun p => decide (p.Within .native)) = .ok true := by
    decide +kernel
  obtain ⟨p, hp, hdecided⟩ := Reading.map_eq_ok_iff.mp (hwithin s h)
  exact ⟨p, hp, of_decide_eq_true hdecided⟩

theorem isCanonical_of_mem_all {s : String} (h : s ∈ all) : Listing.IsCanonical s := by
  obtain ⟨p, hp, -⟩ := exists_profile_within h
  exact (Config.exists_profile_iff.mp ⟨p, hp⟩).1

/-- **Whoever covers the native profile meets every requirement**, among them the versions that
the third generation of onion services needs. -/
theorem met_of_covers {q : Profile} (hq : q.WellFormed) (h : q.Covers .native) :
    (∀ s ∈ all, q.review s = ⟨true, ""⟩) ∧
    q.supports .hsDir hsDirV3 = true ∧ q.supports .hsIntro hsIntroV3 = true := by
  refine ⟨fun s hs => ?_, h _ _ (by decide) (by decide), h _ _ (by decide) (by decide)⟩
  obtain ⟨p, hprofile, hwithin⟩ := exists_profile_within hs
  have hp : p.WellFormed := (Profile.Reachable.configured hprofile).wellFormed
  have hnative := hwithin.review_advertisement hp Profile.wellFormed_native
  rw [Config.advertisement_of_profile hprofile] at hnative
  exact h.review Profile.wellFormed_native hq hnative

theorem met_natively :
    (∀ s ∈ all, Profile.native.review s = ⟨true, ""⟩) ∧
    Profile.native.supports .hsDir hsDirV3 = true ∧
    Profile.native.supports .hsIntro hsIntroV3 = true :=
  met_of_covers Profile.wellFormed_native fun _ _ _ hv => hv

end Requirements

end Subprotocol

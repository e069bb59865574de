/-
One more ballot, one more vote needed.

An outcome is made of the numbers of ballots that back a version of a name, and one more ballot
changes each of them by one or not at all.  So the outcome at the next threshold follows from
those before the ballot came: what had enough votes for it already, and what had one too few and
is backed by the new ballot.  Where one vote is enough, the new ballot is merged in.

For the same reason the outcomes shrink as the threshold is raised and grow as ballots come in, at
every version, those inside a span as well as those at its ends.
-/
import Subprotocol.Proofs.Consensus.Outcome

namespace Subprotocol.Consensus

variable {ballots : List String} {ballot : String} {c : Capabilities} {name : String} {v : Nat}

theorem backs_of_parse (h : Capabilities.parse ballot = .ok c) (name : String) (v : Nat) :
    backs name v ballot = c.supports name v := by
  unfold backs
  rw [h]

/-! ### More votes needed, and more ballots -/

/-- Raising the threshold adds nothing. -/
theorem supports_agreed_of_le {low high : Int} (hle : low ≤ high)
    (h : (outcome ballots high).agreed.supports name v = true) :
    (outcome ballots low).agreed.supports name v = true := by
  rw [supports_agreed_iff] at h ⊢
  omega

/-- Adding ballots, wherever they go, takes nothing away. -/
theorem supports_agreed_of_sublist {more : List String} (hsub : ballots.Sublist more)
    {threshold : Int} (h : (outcome ballots threshold).agreed.supports name v = true) :
    (outcome more threshold).agreed.supports name v = true := by
  have hcount : ballots.countP (backs name v) ≤ more.countP (backs name v) := hsub.countP_le
  rw [supports_agreed_iff] at h ⊢
  omega

/-! ### One more ballot -/

theorem countP_backs_concat (h : Capabilities.parse ballot = .ok c) (ballots : List String)
    (name : String) (v : Nat) :
    (ballots ++ [ballot]).countP (backs name v) =
      ballots.countP (backs name v) + if c.supports name v then 1 else 0 := by
  rw [List.countP_append, List.countP_singleton, backs_of_parse h]

theorem supports_agreed_concat_iff (h : Capabilities.parse ballot = .ok c) {threshold : Int}
    (hpos : 1 ≤ threshold) (ballots : List String) (name : String) (v : Nat) :
    (outcome (ballots ++ [ballot]) (threshold + 1)).agreed.supports name v = true ↔
      (outcome ballots (threshold + 1)).agreed.supports name v = true ∨
      (outcome ballots threshold).agreed.supports name v = true ∧ c.supports name v = true := by
  simp only [supports_agreed_iff, countP_backs_concat h]
  cases c.supports name v with
  | true =>
      simp only [if_true, and_true]
      omega
  | false =>
      simp only [Bool.false_eq_true, if_false, and_false, or_false]
      omega

theorem accepted_concat (h : Capabilities.parse ballot = .ok c) (ballots : List String) :
    accepted (ballots ++ [ballot]) = accepted ballots ++ [c] := by
  have hlast : accepted [ballot] = [c] := by
    simp [accepted, h, Except.toOption]
  rw [← hlast]
  exact List.filterMap_append

/-- Where one vote is enough, the new ballot is merged in. -/
theorem agreed_concat_of_one_needed (h : Capabilities.parse ballot = .ok c) {threshold : Int}
    (hone : threshold ≤ 1) (ballots : List String) :
    (outcome (ballots ++ [ballot]) threshold).agreed =
      (outcome ballots threshold).agreed.merge c := by
  rw [agreed_eq_union hone, agreed_eq_union hone, accepted_concat h]
  exact List.foldl_concat _ _ _ _

/-- **One more ballot, one more vote needed.**  With a ballot that can be read, what reaches the
next threshold is what reached it without the ballot, and what reached the threshold before and
is on the ballot.  Where one vote is enough the ballot is merged in.  Raising the threshold never
adds a version, and adding ballots never removes one. -/
theorem outcome_concat (h : Capabilities.parse ballot = .ok c) {threshold : Int}
    (hpos : 1 ≤ threshold) (ballots : List String) :
    (∀ name v,
      (outcome (ballots ++ [ballot]) (threshold + 1)).agreed.supports name v = true ↔
        (outcome ballots (threshold + 1)).agreed.supports name v = true ∨
        (outcome ballots threshold).agreed.supports name v = true ∧
          c.supports name v = true) ∧
    (outcome (ballots ++ [ballot]) 1).agreed = (outcome ballots 1).agreed.merge c ∧
    (∀ (votes : List String) (low high : Int), low ≤ high →
      ∀ name v, (outcome votes high).agreed.supports name v = true →
        (outcome votes low).agreed.supports name v = true) ∧
    ∀ (fewer more : List String), fewer.Sublist more → ∀ (needed : Int) name v,
      (outcome fewer needed).agreed.supports name v = true →
        (outcome more needed).agreed.supports name v = true := by
  refine ⟨?_, ?_, ?_, ?_⟩
  · intro name v
    exact supports_agreed_concat_iff h hpos ballots name v
  · exact agreed_concat_of_one_needed h (Int.le_refl 1) ballots
  · intro votes low high hle name v hagreed
    exact supports_agreed_of_le hle hagreed
  · intro fewer more hsub needed name v hagreed
    exact supports_agreed_of_sublist hsub hagreed

/-- Two ballots and a third one, at two and three votes. -/
theorem outcome_concat_third :
    ∃ ballots ballot c, ballots = ["Link=1-3,4294967295", "Link=2-4 Cons=1"] ∧
      ballot = "Link=3,4294967294-4294967295 Relay=2" ∧ Capabilities.parse ballot = .ok c ∧
      agreedText ballots 2 = "Link=2-3" ∧ agreedText ballots 3 = "" ∧
      agreedText (ballots ++ [ballot]) 3 = "Link=3" ∧
      agreedText (ballots ++ [ballot]) 2 = "Link=2-3,4294967295" ∧
      (∀ name v, (outcome (ballots ++ [ballot]) 3).agreed.supports name v = true ↔
        (outcome ballots 3).agreed.supports name v = true ∨
        (outcome ballots 2).agreed.supports name v = true ∧ c.supports name v = true) ∧
      (outcome (ballots ++ [ballot]) 1).agreed = (outcome ballots 1).agreed.merge c ∧
      (∀ name v, (outcome ballots 2).agreed.supports name v = true →
        (outcome (ballots ++ [ballot]) 2).agreed.supports name v = true) := by
  obtain ⟨c, hc⟩ := Reading.isOk_iff.mp (show (Capabilities.parse
    "Link=3,4294967294-4294967295 Relay=2").isOk = true by decide +kernel)
  obtain ⟨hthree, hone, -, hmore⟩ := outcome_concat hc (show (1 : Int) ≤ 2 by decide)
    ["Link=1-3,4294967295", "Link=2-4 Cons=1"]
  exact ⟨_, _, c, rfl, rfl, hc, by decide +kernel, by decide +kernel, by decide +kernel,
    by decide +kernel, hthree, hone, hmore _ _ (List.sublist_append_left _ _) 2⟩

end Subprotocol.Consensus

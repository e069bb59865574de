/-
Staggered ballots agree on all but the newest links.

Each voter speaks one link version more than the one before, so the voters that speak a version
are the ones from its own voter on.  Of `count` voters that leaves `count + 1 - v` for version
`v`, by induction on the voters: one more speaks every version up to its own.  Enough of them
speak exactly the versions up to some newest one, and all of them speak the two relay versions.

What a ballot says and what the voters agree on has the same form, and is written and read by
the same lemmas.  The text of the one and the text of the other differ where a single version is
left, since a ballot writes it as a span of two bounds.
-/
import Subprotocol.Poll
import Subprotocol.Proofs.Consensus.Outcome

namespace Subprotocol.Poll

open Consensus

/-! ### One voter -/

/-- What a voter speaks whose link versions are those of `links`. -/
def speaking (links : Span) : Capabilities :=
  ⟨[⟨"Link", [links]⟩, ⟨"Relay", Spans.ofGaps [(1, 2)]⟩]⟩

variable {links : Span} {name : String} {v newest count : Nat}

theorem wellFormed_speaking (links : Span) : (speaking links).WellFormed where
  ascending := List.pairwise_pair.mpr (show "Link" < "Relay" by decide)
  entry := by
    have hlink : ValidName "Link" := by decide
    have hrelay : ValidName "Relay" := by decide
    refine List.forall_mem_cons.mpr ⟨⟨hlink, List.pairwise_singleton _ _⟩, ?_⟩
    exact List.forall_mem_singleton.mpr ⟨hrelay, Spans.separated_ofGaps (List.pairwise_singleton _ _)⟩
  nonempty := by
    have hrelays : Spans.ofGaps [(1, 2)] ≠ [] := by decide
    simp [speaking, Entry.IsEmpty, hrelays]

theorem lists_speaking_iff :
    (speaking links).Lists name v ↔
      (name = "Link" ∧ v ∈ links) ∨ (name = "Relay" ∧ 1 ≤ v ∧ v ≤ 2) := by
  have hnone : ¬ Capabilities.Lists ⟨[]⟩ name v := Capabilities.not_lists_empty name v
  have hrelays : (Spans.ofGaps [(1, 2)]).Holds v ↔ 1 ≤ v ∧ v ≤ 2 := by
    simp [Spans.holds_ofGaps, lastVersion]
  simp [speaking, Capabilities.lists_cons, hnone, hrelays, Spans.holds_cons, Spans.not_holds_nil,
    Span.mem_iff, eq_comm (a := name)]

theorem encode_speaking (links : Span) :
    (speaking links).encode = "Link=" ++ links.text ++ " Relay=1-2" := by
  have hrelays : Spans.chars (Spans.ofGaps [(1, 2)]) = ['1', '-', '2'] := by decide
  have hlinks : Spans.chars [links] = links.chars := by simp [Spans.chars]
  rw [← String.toList_inj]
  simp [Capabilities.encode, Capabilities.chars, speaking, Entry.chars, hrelays, hlinks, Span.text]

theorem encode_speaking_one :
    (speaking ⟨1, 1, by decide, by decide⟩).encode = "Link=1 Relay=1-2" := by
  decide +kernel

theorem encode_speaking_of_lt (links : Span) (hlow : links.low = 1) (hlt : 1 < links.high) :
    (speaking links).encode = ballotUpTo links.high := by
  have hone : Decimal.digits 1 = ['1'] := by decide
  have hrepr : links.high.repr.toList = Decimal.digits links.high := String.toList_ofList
  rw [encode_speaking, Span.text, Span.chars_of_lt (by omega), hlow, hone, ballotUpTo,
    ← String.toList_inj]
  simp [hrepr]

theorem parse_ballotUpTo (hpos : 1 ≤ newest) (hle : newest ≤ lastVersion) :
    Capabilities.parse (ballotUpTo newest) = .ok (speaking ⟨1, newest, hpos, hle⟩) := by
  by_cases hone : newest = 1
  · subst hone
    show Capabilities.parse (ballotUpTo 1) = .ok (speaking ⟨1, 1, by decide, by decide⟩)
    decide +kernel
  · have hlt : 1 < newest := by omega
    rw [← encode_speaking_of_lt ⟨1, newest, hpos, hle⟩ rfl hlt]
    exact (wellFormed_speaking _).parse_encode

theorem backs_ballotUpTo (hpos : 1 ≤ newest) (hle : newest ≤ lastVersion) :
    backs name v (ballotUpTo newest) = true ↔
      (name = "Link" ∧ 1 ≤ v ∧ v ≤ newest) ∨ (name = "Relay" ∧ 1 ≤ v ∧ v ≤ 2) := by
  rw [backs_iff_lists, parse_ballotUpTo hpos hle]
  simp only [Except.ok.injEq, exists_eq_left', lists_speaking_iff, Span.mem_iff]

/-! ### All voters -/

/-- How many of `count` staggered ballots back a version. -/
def backers (count : Nat) (name : String) (v : Nat) : Nat :=
  if name = "Link" ∧ 1 ≤ v then count + 1 - v
  else if name = "Relay" ∧ 1 ≤ v ∧ v ≤ 2 then count
  else 0

theorem staggered_succ (count : Nat) :
    staggered (count + 1) = staggered count ++ [ballotUpTo (count + 1)] := by
  unfold staggered
  rw [List.range_succ, List.map_append, List.map_singleton]

/-- One more voter backs every link version up to its own, and the relay versions. -/
theorem backers_succ (count : Nat) (name : String) (v : Nat) :
    backers (count + 1) name v = backers count name v +
      if (name = "Link" ∧ 1 ≤ v ∧ v ≤ count + 1) ∨ (name = "Relay" ∧ 1 ≤ v ∧ v ≤ 2) then 1
      else 0 := by
  unfold backers
  grind

theorem countP_backs_staggered (hcount : count ≤ lastVersion) :
    (staggered count).countP (backs name v) = backers count name v := by
  induction count with
  | zero =>
      show 0 = backers 0 name v
      unfold backers
      split_ifs <;> omega
  | succ count ih =>
      rw [staggered_succ, List.countP_append, List.countP_singleton, ih (by omega), backers_succ]
      simp only [backs_ballotUpTo (Nat.le_add_left 1 count) hcount]

/-! ### What enough of them agree on -/

theorem agreed_staggered (hcount : count ≤ lastVersion) {threshold : Int} (hpos : 1 ≤ newest)
    (hle : newest ≤ lastVersion) (hnewest : newest + quorum threshold = count + 1) :
    (Consensus.outcome (staggered count) threshold).agreed = speaking ⟨1, newest, hpos, hle⟩ := by
  have hquorum := quorum_pos threshold
  refine Capabilities.eq_of_lists_iff (wellFormed_agreed _ _) (wellFormed_speaking _) ?_
  intro name v
  rw [lists_agreed_iff, countP_backs_staggered hcount, lists_speaking_iff, Span.mem_iff, backers]
  grind

/-- **Staggered ballots agree on all but the newest links.**  Of `count` links they agree on all
but one fewer than are needed, written as a single version where one is left, and on nothing if
more ballots are needed than there are. -/
theorem agreedText_staggered (hcount : count ≤ lastVersion) (threshold : Int) :
    agreedText (staggered count) threshold =
      if count = 0 ∨ count < threshold then ""
      else
        let newest := (count - max threshold 1 + 1).toNat
        if newest = 1 then "Link=1 Relay=1-2"
        else "Link=1-" ++ newest.repr ++ " Relay=1-2" := by
  have hquorum : quorum threshold = max threshold 1 := rfl
  by_cases hfew : count < quorum threshold
  · have hlength : (staggered count).length = count := by simp [staggered]
    rw [if_pos (by omega), agreedText, agreed_eq_empty_of_lt_quorum (by rwa [hlength])]
    rfl
  · rw [if_neg (by omega), ← hquorum]
    generalize hnewest : (count - quorum threshold + 1).toNat = newest
    have hpos : 1 ≤ newest := by omega
    have hle : newest ≤ lastVersion := by omega
    rw [agreedText, agreed_staggered hcount hpos hle (by omega)]
    by_cases hone : newest = 1
    · subst hone
      exact encode_speaking_one
    · have hlt : 1 < newest := by omega
      rw [encode_speaking_of_lt _ rfl hlt]
      exact (if_neg hone).symm

/-- As many voters as there are links past version zero, with the largest threshold that 32 bits
with a sign can say, with thresholds at and past the edges, and with none that is positive. -/
theorem agreedText_staggered_of_all_links :
    agreedText (staggered lastVersion) 2147483647 = "Link=1-2147483649 Relay=1-2" ∧
    agreedText (staggered lastVersion) (-2147483648) = "Link=1-4294967295 Relay=1-2" ∧
    agreedText (staggered 5) 4 = "Link=1-2 Relay=1-2" ∧
    agreedText (staggered 5) 5 = "Link=1 Relay=1-2" ∧
    agreedText (staggered 5) 6 = "" ∧
    agreedText (staggered 0) (-1) = "" := by
  have hall : lastVersion ≤ lastVersion := Nat.le_refl _
  have hfive : 5 ≤ lastVersion := by decide
  refine ⟨(agreedText_staggered hall _).trans ?_, (agreedText_staggered hall _).trans ?_,
    (agreedText_staggered hfive _).trans ?_, (agreedText_staggered hfive _).trans ?_,
    (agreedText_staggered hfive _).trans ?_, (agreedText_staggered (Nat.zero_le _) _).trans ?_⟩
  all_goals decide +kernel

end Subprotocol.Poll

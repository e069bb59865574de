/-
The outcome of a vote is exact.

A pair of name and version is agreed on exactly when the ballots that list it are as many
as are needed.  For one name the walk over the shifts counts the spans that hold a version;
the spans of one ballot are separate, so at most one of them holds it, and the count is one
of ballots.  A name that no ballot mentions is never looked at, and needs not be, since at
least one ballot is always needed.
-/
import Subprotocol.Proofs.Capabilities.View
import Subprotocol.Proofs.Consensus.Sweep
import Subprotocol.Proofs.Listing.RoundTrip

namespace Subprotocol.Consensus

/-- `ballot` can be read and lists `v` under `name`. -/
def backs (name : String) (v : Nat) (ballot : String) : Bool :=
  match Capabilities.parse ballot with
  | .ok c => c.supports name v
  | .error _ => false

theorem backs_iff_lists {name : String} {v : Nat} {ballot : String} :
    backs name v ballot = true ↔ ∃ c, Capabilities.parse ballot = .ok c ∧ c.Lists name v := by
  unfold backs
  cases hparse : Capabilities.parse ballot with
  | error fault => simp
  | ok c => simp [(Capabilities.wellFormed_of_parse hparse).supports_iff_lists]

/-! ### Counting spans is counting ballots -/

/-- Of separate spans at most one holds a version. -/
theorem countP_mem_of_separated {l : Spans} (hl : l.Separated) (v : Nat) :
    l.countP (v ∈ ·) = if l.supports v then 1 else 0 := by
  induction l with
  | nil => rfl
  | cons s rest ih =>
      rw [List.countP_cons, ih hl.tail]
      have hcons := (Spans.supports_iff_holds hl (v := v)).trans Spans.holds_cons
      have hrest := Spans.supports_iff_holds hl.tail (v := v)
      by_cases hv : v ∈ s
      · have hnot : ¬ Spans.supports rest v = true := by
          intro h
          have hlt := Spans.lt_of_holds_of_separated hl (hrest.mp h)
          have hle := (Span.mem_iff.mp hv).2
          omega
        rw [if_neg hnot, if_pos (decide_eq_true hv), if_pos (hcons.mpr (Or.inl hv))]
      · have hiff : Spans.supports (s :: rest) v = true ↔ Spans.supports rest v = true := by
          rw [hcons, hrest, or_iff_right hv]
        simp only [hiff, decide_eq_true_eq, hv, if_false, Nat.add_zero]

theorem countP_spansOf {votes : List Capabilities} (h : ∀ c ∈ votes, c.WellFormed) (name : String)
    (v : Nat) :
    (votes.flatMap (·.spansOf name)).countP (v ∈ ·) = votes.countP (·.supports name v) := by
  induction votes with
  | nil => rfl
  | cons c rest ih =>
      rw [List.flatMap_cons, List.countP_append, List.countP_cons,
        countP_mem_of_separated ((h c (by simp)).separated_spansOf name), Capabilities.supports_spansOf,
        ih fun d hd => h d (List.mem_cons_of_mem c hd)]
      exact Nat.add_comm _ _

/-! ### What is agreed on -/

theorem quorum_pos (threshold : Int) : 0 < quorum threshold := by
  rw [quorum]
  omega

theorem wellFormed_of_mem_accepted (ballots : List String) :
    ∀ c ∈ accepted ballots, c.WellFormed := by
  intro c hc
  obtain ⟨b, -, hb⟩ := List.mem_filterMap.mp hc
  cases hparse : Capabilities.parse b with
  | error e =>
      rw [hparse] at hb
      simp [Except.toOption] at hb
  | ok d =>
      rw [hparse] at hb
      have hdc : d = c := by simpa [Except.toOption] using hb
      rw [← hdc]
      exact Capabilities.wellFormed_of_parse hparse

theorem countP_accepted (ballots : List String) (name : String) (v : Nat) :
    (accepted ballots).countP (·.supports name v) = ballots.countP (backs name v) := by
  rw [accepted, List.countP_filterMap]
  refine List.countP_congr fun b _ => ?_
  rw [backs]
  cases Capabilities.parse b <;> simp [Except.toOption]

theorem length_accepted (ballots : List String) :
    (accepted ballots).length = ballots.countP fun b => (Capabilities.parse b).isOk := by
  rw [accepted, List.length_filterMap_eq_countP]
  refine List.countP_congr fun b _ => ?_
  cases Capabilities.parse b <;> simp [Except.toOption, Except.isOk, Except.toBool]

theorem wellFormed_agreed (ballots : List String) (threshold : Int) :
    (outcome ballots threshold).agreed.WellFormed := by
  refine Capabilities.WellFormed.ofEntries fun e he => ?_
  obtain ⟨name, hname, rfl⟩ := List.mem_map.mp he
  obtain ⟨f, hf, rfl⟩ := List.mem_map.mp hname
  have hunion := Capabilities.WellFormed.union (wellFormed_of_mem_accepted ballots)
  exact ⟨(hunion.entry f hf).name, separated_heldByEnough _ _⟩

theorem lists_accepted_iff {ballots : List String} {name : String} {v : Nat} :
    (∃ c ∈ accepted ballots, c.Lists name v) ↔ 0 < ballots.countP (backs name v) := by
  have hvotes := wellFormed_of_mem_accepted ballots
  rw [← countP_accepted, List.countP_pos_iff]
  constructor
  · intro h
    obtain ⟨c, hc, hlists⟩ := h
    exact ⟨c, hc, (hvotes c hc).supports_iff_lists.mpr hlists⟩
  · intro h
    obtain ⟨c, hc, hsupports⟩ := h
    exact ⟨c, hc, (hvotes c hc).supports_iff_lists.mp hsupports⟩

/-- What is agreed on is what enough of the ballots back. -/
theorem lists_agreed_iff {ballots : List String} {threshold : Int} {name : String} {v : Nat} :
    (outcome ballots threshold).agreed.Lists name v ↔
      quorum threshold ≤ ballots.countP (backs name v) := by
  have hvotes := wellFormed_of_mem_accepted ballots
  have hunion := Capabilities.WellFormed.union hvotes
  have hpos := quorum_pos threshold
  have hholds : ∀ n, (agreement (quorum threshold) (accepted ballots) n).spans.Holds v ↔
      quorum threshold ≤ ballots.countP (backs n v) := by
    intro n
    rw [agreement, holds_heldByEnough hpos, countP_spansOf hvotes, countP_accepted]
  rw [outcome, Capabilities.lists_ofEntries]
  constructor
  · intro h
    obtain ⟨e, he, hname, hv⟩ := h
    obtain ⟨n, -, rfl⟩ := List.mem_map.mp he
    rw [← show n = name from hname]
    exact (hholds n).mp hv
  · intro h
    refine ⟨_, List.mem_map.mpr ⟨name, ?_, rfl⟩, rfl, (hholds name).mpr h⟩
    -- Enough ballots are at least one, and the name stands on it.
    have hcount : 0 < ballots.countP (backs name v) := by omega
    exact hunion.mem_names_iff.mpr ⟨v, Capabilities.lists_union.mpr (lists_accepted_iff.mpr hcount)⟩

theorem supports_agreed_iff (ballots : List String) (threshold : Int) (name : String) (v : Nat) :
    (outcome ballots threshold).agreed.supports name v = true ↔
      max threshold 1 ≤ ballots.countP (backs name v) := by
  rw [(wellFormed_agreed ballots threshold).supports_iff_lists, lists_agreed_iff, quorum]

/-- One ballot is enough where no more than one is asked for. -/
theorem agreed_eq_union {ballots : List String} {threshold : Int} (h : threshold ≤ 1) :
    (outcome ballots threshold).agreed = Capabilities.union (accepted ballots) := by
  have hunion := Capabilities.WellFormed.union (wellFormed_of_mem_accepted ballots)
  refine Capabilities.eq_of_lists_iff (wellFormed_agreed ballots threshold) hunion ?_
  intro name v
  rw [lists_agreed_iff, Capabilities.lists_union, lists_accepted_iff, quorum]
  omega

/-- Nothing is agreed on where more ballots are needed than there are. -/
theorem agreed_eq_empty_of_lt_quorum {ballots : List String} {threshold : Int}
    (h : ballots.length < quorum threshold) :
    (outcome ballots threshold).agreed = Capabilities.empty := by
  have hempty := Capabilities.WellFormed.empty
  refine Capabilities.eq_of_lists_iff (wellFormed_agreed ballots threshold) hempty ?_
  intro name v
  have hle := List.countP_le_length (p := backs name v) (l := ballots)
  rw [lists_agreed_iff]
  exact iff_of_false (by omega) (Capabilities.not_lists_empty name v)

theorem agreed_eq_empty {ballots : List String} {threshold : Int} (h : ballots.length < threshold) :
    (outcome ballots threshold).agreed = Capabilities.empty := by
  refine agreed_eq_empty_of_lt_quorum ?_
  rw [quorum]
  omega

theorem rejected_outcome (ballots : List String) (threshold : Int) :
    (outcome ballots threshold).rejected =
      ballots.countP fun b => !(Capabilities.parse b).isOk := by
  have hsplit := List.length_eq_countP_add_countP (fun b => (Capabilities.parse b).isOk)
    (l := ballots)
  show ballots.length - (accepted ballots).length = _
  rw [length_accepted]
  simp only [Bool.not_eq_true, Bool.decide_eq_false] at hsplit
  omega

/-- **A vote is exact.**  A ballot counts once for a pair however often it lists it, and not
at all if it cannot be read. -/
theorem outcome_exact (ballots : List String) (threshold : Int) :
    (∀ name v, (outcome ballots threshold).agreed.supports name v = true ↔
      max threshold 1 ≤ ballots.countP (backs name v)) ∧
    (outcome ballots threshold).ballots = ballots.length ∧
    (outcome ballots threshold).rejected =
      (ballots.countP fun b => !(Capabilities.parse b).isOk) ∧
    (threshold ≤ 1 →
      (outcome ballots threshold).agreed = Capabilities.union (accepted ballots)) ∧
    (ballots.length < threshold → (outcome ballots threshold).agreed = Capabilities.empty) ∧
    Capabilities.parse (agreedText ballots threshold) = .ok (outcome ballots threshold).agreed ∧
    Listing.IsCanonical (agreedText ballots threshold) := by
  have hagreed := wellFormed_agreed ballots threshold
  refine ⟨?_, rfl, rejected_outcome ballots threshold, agreed_eq_union, agreed_eq_empty, ?_, ?_⟩
  · intro name v
    exact supports_agreed_iff ballots threshold name v
  · exact hagreed.parse_encode
  · exact hagreed.isCanonical_encode

/-- The second ballot counts once for version 2, and the third, which has no spec, nowhere. -/
example : agreedText ["Link=1-3", "Link=2-4 Link=2", "Link"] 2 = "Link=2-3" := by
  decide +kernel

end Subprotocol.Consensus

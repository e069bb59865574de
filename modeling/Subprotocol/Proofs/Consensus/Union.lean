/-
A vote that needs one ballot is a merge of the ballots.

A threshold of one or less can be reached in two ways that have no step in common.  The walk
over the shifts keeps a stretch open while any span is, and closes it where the running count
drops to zero.  A merge inserts one span after another, and joins each with those it meets.
Where one span ends and the next begins the walk sees no drop, since changes at one position
add up, and a merge sees two spans that meet.  Both end in separate spans that hold what some
span holds, and there is only one such list.

So the outcome is the union of the ballots that can be read, as a value and to the last byte
of its text.  The union is also what the ballots list when they are joined to one text.
-/
import Subprotocol.Proofs.Capabilities.Canonical
import Subprotocol.Proofs.Listing.Joining

namespace Subprotocol.Consensus

/-- `ballot` is a protocol list. -/
def readable (ballot : String) : Bool := (Capabilities.parse ballot).isOk

variable {ballots : List String} {threshold : Int}

/-- What one span is enough for is what inserting the spans one after the other leads to. -/
theorem heldByEnough_one (spans : Spans) : heldByEnough 1 spans = Spans.ofList spans := by
  refine Spans.eq_of_holds_iff (separated_heldByEnough 1 spans) (Spans.separated_ofList spans) ?_
  intro v
  have hcount : (1 : Int) ≤ spans.countP (v ∈ ·) ↔ 0 < spans.countP (v ∈ ·) := by
    omega
  rw [holds_heldByEnough (by decide), Spans.holds_ofList, hcount, List.countP_pos_iff]
  simp only [Spans.Holds, decide_eq_true_eq]

theorem quorum_eq_one (h : threshold ≤ 1) : quorum threshold = 1 := by
  unfold quorum
  omega

/-- The readable ballots are read, joined by spaces, as the union of what they list. -/
theorem parse_intercalate_readable (ballots : List String) :
    Capabilities.parse (" ".intercalate (ballots.filter readable)) =
      .ok (Capabilities.union (accepted ballots)) := by
  have hrow : (ballots.filter readable).mapM Capabilities.parse = .ok (accepted ballots) :=
    Reading.mapM_filter_isOk Capabilities.parse ballots
  rw [Capabilities.parse_intercalate, hrow]
  rfl

/-- **A vote that needs one ballot merges the ballots.**  The walk over the shifts does what
inserting span after span does, the outcome is the union of the readable ballots, and its text
is the canonical text of the union and of the readable ballots joined by spaces. -/
theorem outcome_of_one_needed (ballots : List String) (h : threshold ≤ 1) :
    (∀ spans, heldByEnough (quorum threshold) spans = Spans.ofList spans) ∧
    (outcome ballots threshold).agreed = Capabilities.union (accepted ballots) ∧
    agreedText ballots threshold = (Capabilities.union (accepted ballots)).encode ∧
    Listing.canonical (" ".intercalate (ballots.filter readable)) =
      .ok (agreedText ballots threshold) := by
  have hagreed : (outcome ballots threshold).agreed = Capabilities.union (accepted ballots) :=
    agreed_eq_union h
  have htext : agreedText ballots threshold = (Capabilities.union (accepted ballots)).encode := by
    unfold agreedText
    rw [hagreed]
  refine ⟨?_, hagreed, htext, ?_⟩
  · intro spans
    rw [quorum_eq_one h, heldByEnough_one]
  · rw [Listing.canonical_of_parse (parse_intercalate_readable ballots), htext]

/-- Ballots that overlap, lie side by side and reach the last version, between one that cannot
be read and a blank one. -/
theorem outcome_of_one_needed_adjacent :
    ∃ ballots, ballots = ["Link=1-3,9", "Link=3-1", "Link=4-5 Cons=4294967294", " ",
        "Cons=4294967295 Link=2-4"] ∧
      (outcome ballots (-5)).agreed = Capabilities.union (accepted ballots) ∧
      agreedText ballots (-5) = "Cons=4294967294-4294967295 Link=1-5,9" ∧
      " ".intercalate (ballots.filter readable) =
        "Link=1-3,9 Link=4-5 Cons=4294967294   Cons=4294967295 Link=2-4" ∧
      Listing.canonical "Link=1-3,9 Link=4-5 Cons=4294967294   Cons=4294967295 Link=2-4" =
        .ok "Cons=4294967294-4294967295 Link=1-5,9" := by
  have htext : agreedText ["Link=1-3,9", "Link=3-1", "Link=4-5 Cons=4294967294", " ",
      "Cons=4294967295 Link=2-4"] (-5) = "Cons=4294967294-4294967295 Link=1-5,9" := by
    decide +kernel
  have hjoined : " ".intercalate (["Link=1-3,9", "Link=3-1", "Link=4-5 Cons=4294967294", " ",
      "Cons=4294967295 Link=2-4"].filter readable) =
        "Link=1-3,9 Link=4-5 Cons=4294967294   Cons=4294967295 Link=2-4" := by
    decide +kernel
  obtain ⟨-, hagreed, -, hcanonical⟩ := outcome_of_one_needed ["Link=1-3,9", "Link=3-1",
    "Link=4-5 Cons=4294967294", " ", "Cons=4294967295 Link=2-4"] (show (-5 : Int) ≤ 1 by decide)
  rw [hjoined, htext] at hcanonical
  exact ⟨_, rfl, hagreed, htext, hjoined, hcanonical⟩

end Subprotocol.Consensus

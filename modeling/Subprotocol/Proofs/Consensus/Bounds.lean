/-
A vote cannot amplify.

The spans that are agreed on under a name are made of the bounds that stand on the ballots, and
they are no more than the ballots brought.  Whether the walk over the shifts opens or closes a
stretch depends on all the shifts at one position together, and some of them may cancel.  So the
bounds are not followed through the walk here.  They are read off what the walk leads to.

The versions next to a span that is agreed on are missing, so fewer spans hold them than hold the
version at its bound.  Some span on a ballot then holds the one and not the other, and a span
that does so has its bound right there.  No two of the spans that are agreed on start at the same
version, and each starts where one on a ballot does; that bounds how many there are.
-/
import Mathlib.Data.List.Perm.Subperm
import Subprotocol.Proofs.Consensus.Outcome

namespace Subprotocol.Consensus

/-- Where more members pass a test than another one, some member passes the one and fails the
other. -/
theorem exists_of_countP_lt {α : Type} {p q : α → Bool} {l : List α}
    (h : l.countP q < l.countP p) : ∃ a ∈ l, p a = true ∧ ¬ q a = true := by
  refine Classical.byContradiction fun hnone => ?_
  have hle : l.countP p ≤ l.countP q := by
    refine List.countP_mono_left fun a ha hp => ?_
    exact Classical.byContradiction fun hq => hnone ⟨a, ha, hp, hq⟩
  omega

/-! ### Spans that describe what enough spans hold -/

/-- The separate spans `l` hold what at least `needed` of `spans` hold. -/
structure Tallied (needed : Int) (spans l : Spans) : Prop where
  pos : 0 < needed
  separated : l.Separated
  holds_iff : ∀ v, l.Holds v ↔ needed ≤ spans.countP (v ∈ ·)

namespace Tallied

variable {needed : Int} {spans l : Spans} {s : Span}

/-- Some span holds a version of `s` and not the one beside `s`. -/
theorem exists_edge (h : Tallied needed spans l) (hs : s ∈ l) {v w : Nat} (hin : v ∈ s)
    (hout : w ∉ s) (hbefore : s.low ≤ w + 1) (hbehind : w ≤ s.high + 1) :
    ∃ r ∈ spans, v ∈ r ∧ w ∉ r := by
  have henough := (h.holds_iff v).mp ⟨s, hs, hin⟩
  have hfew := mt (h.holds_iff w).mpr (h.separated.not_holds_beside hs hout hbefore hbehind)
  obtain ⟨r, hr, hv, hw⟩ := exists_of_countP_lt (p := (v ∈ ·)) (q := (w ∈ ·)) (l := spans)
    (by omega)
  exact ⟨r, hr, by simpa using hv, by simpa using hw⟩

theorem exists_low (h : Tallied needed spans l) (hs : s ∈ l) : ∃ r ∈ spans, r.low = s.low := by
  have hordered := s.ordered
  by_cases hzero : s.low = 0
  · -- No version comes before the first one, but some span has to hold it.
    have henough := (h.holds_iff _).mp ⟨s, hs, s.low_mem⟩
    have hpos := h.pos
    obtain ⟨r, hr, hmem⟩ := List.countP_pos_iff.mp (show 0 < spans.countP (s.low ∈ ·) by omega)
    have hstart := (Span.mem_iff.mp (of_decide_eq_true hmem)).1
    exact ⟨r, hr, by omega⟩
  · have hout : s.low - 1 ∉ s := by
      rw [Span.mem_iff]
      omega
    obtain ⟨r, hr, hv, hw⟩ := h.exists_edge hs s.low_mem hout (by omega) (by omega)
    rw [Span.mem_iff] at hv hw
    exact ⟨r, hr, by omega⟩

theorem exists_high (h : Tallied needed spans l) (hs : s ∈ l) :
    ∃ r ∈ spans, r.high = s.high := by
  have hordered := s.ordered
  have hout : s.high + 1 ∉ s := by
    rw [Span.mem_iff]
    omega
  obtain ⟨r, hr, hv, hw⟩ := h.exists_edge hs s.high_mem hout (by omega) (by omega)
  rw [Span.mem_iff] at hv hw
  exact ⟨r, hr, by omega⟩

theorem length_le (h : Tallied needed spans l) : l.length ≤ spans.length := by
  have hdistinct : (l.map Span.low).Nodup := by
    refine List.pairwise_map.mpr (h.separated.imp fun {a b} hab => ?_)
    have hordered := a.ordered
    omega
  have hsubset : l.map Span.low ⊆ spans.map Span.low := by
    intro v hv
    obtain ⟨s, hs, rfl⟩ := List.mem_map.mp hv
    obtain ⟨r, hr, hlow⟩ := h.exists_low hs
    exact List.mem_map.mpr ⟨r, hr, hlow⟩
  have hle := (List.subperm_of_subset hdistinct hsubset).length_le
  rwa [List.length_map, List.length_map] at hle

end Tallied

/-! ### Ballots -/

variable {ballots : List String} {threshold : Int} {name : String}

theorem tallied_agreed (ballots : List String) (threshold : Int) (name : String) :
    Tallied (quorum threshold) ((accepted ballots).flatMap (·.spansOf name))
      ((outcome ballots threshold).agreed.spansOf name) where
  pos := quorum_pos threshold
  separated := (wellFormed_agreed ballots threshold).separated_spansOf name
  holds_iff v := by
    rw [(wellFormed_agreed ballots threshold).holds_spansOf, lists_agreed_iff,
      countP_spansOf (wellFormed_of_mem_accepted ballots), countP_accepted]

/-- What is agreed on under some name takes that name from a ballot. -/
theorem exists_mem_names_of_agreed (h : name ∈ (outcome ballots threshold).agreed.names) :
    ∃ c ∈ accepted ballots, name ∈ c.names := by
  have hpos := quorum_pos threshold
  obtain ⟨v, hv⟩ := (wellFormed_agreed ballots threshold).mem_names_iff.mp h
  have henough := lists_agreed_iff.mp hv
  obtain ⟨c, hc, hlists⟩ := lists_accepted_iff.mpr
    (show 0 < ballots.countP (backs name v) by omega)
  exact ⟨c, hc, (wellFormed_of_mem_accepted ballots c hc).mem_names_iff.mpr ⟨v, hlists⟩⟩

/-- **A vote cannot amplify.**  What is agreed on under a name is made of bounds that stand on the
ballots under that name, and takes no more spans than stand on all of them together. -/
theorem agreed_within_ballots (h : name ∈ (outcome ballots threshold).agreed.names) :
    (∃ c ∈ accepted ballots, name ∈ c.names) ∧
    (∀ s ∈ (outcome ballots threshold).agreed.spansOf name,
      (∃ c ∈ accepted ballots, ∃ r ∈ c.spansOf name, r.low = s.low) ∧
      ∃ c ∈ accepted ballots, ∃ r ∈ c.spansOf name, r.high = s.high) ∧
    ((outcome ballots threshold).agreed.spansOf name).length ≤
      ((accepted ballots).flatMap (·.spansOf name)).length := by
  have htallied := tallied_agreed ballots threshold name
  refine ⟨exists_mem_names_of_agreed h, fun s hs => ⟨?_, ?_⟩, ?_⟩
  · obtain ⟨r, hr, hlow⟩ := htallied.exists_low hs
    obtain ⟨c, hc, hr⟩ := List.mem_flatMap.mp hr
    exact ⟨c, hc, r, hr, hlow⟩
  · obtain ⟨r, hr, hhigh⟩ := htallied.exists_high hs
    obtain ⟨c, hc, hr⟩ := List.mem_flatMap.mp hr
    exact ⟨c, hc, r, hr, hhigh⟩
  · exact htallied.length_le

/-- Behind version 3 one ballot's span ends where another's starts, and the shifts cancel. -/
theorem agreed_within_ballots_cancelling :
    ∃ ballots, ballots = ["Link=1-3", "Link=3-6,9", "Link", "Link=4-6,9 Cons=1"] ∧
      (outcome ballots 2).agreed.spansOf "Link" =
        [⟨3, 6, by decide, by decide⟩, ⟨9, 9, by decide, by decide⟩] ∧
      (∃ c ∈ accepted ballots, "Link" ∈ c.names) ∧
      (∀ s ∈ (outcome ballots 2).agreed.spansOf "Link",
        (∃ c ∈ accepted ballots, ∃ r ∈ c.spansOf "Link", r.low = s.low) ∧
        ∃ c ∈ accepted ballots, ∃ r ∈ c.spansOf "Link", r.high = s.high) ∧
      ((outcome ballots 2).agreed.spansOf "Link").length ≤
        ((accepted ballots).flatMap (·.spansOf "Link")).length ∧
      ((accepted ballots).flatMap (·.spansOf "Link")).length = 5 := by
  have hname : "Link" ∈ (outcome ["Link=1-3", "Link=3-6,9", "Link", "Link=4-6,9 Cons=1"]
      2).agreed.names := by
    decide +kernel
  obtain ⟨hnamed, hbounds, hfew⟩ := agreed_within_ballots hname
  exact ⟨_, rfl, by decide +kernel, hnamed, hbounds, hfew, by decide +kernel⟩

end Subprotocol.Consensus

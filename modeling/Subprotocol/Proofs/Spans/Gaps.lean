/-
The walk that takes versions away leaves separate spans, and what no cover holds.

`remove` does not go through `insert`, so the shape of its result has to be argued from the
walk.  Two facts are enough.  Every gap lies between the cursor and the high bound of the
span that is walked, and a cover that ends a gap moves the cursor behind itself, so that
the versions of the cover stand between that gap and the next.  Neither needs the covers in
any order.

What the gaps hold does depend on the order.  A version that is let out in front of a cover
is never looked at again, so no later cover may reach back to it; that is the case when the
low bounds of the covers ascend.  In any other order the walk may leave too much, though never
too little: the cursor passes a version only by letting it out or by moving behind a cover that
holds it.
-/
import Subprotocol.Spans.Lemmas

namespace Subprotocol.Spans

/-! ### Spans with given bounds -/

theorem mem_ofGaps {bounds : List (Nat × Nat)} {s : Span} :
    s ∈ ofGaps bounds ↔ (s.low, s.high) ∈ bounds := by
  rw [ofGaps, List.mem_filterMap]
  constructor
  · intro h
    obtain ⟨b, hb, hs⟩ := h
    simp only [Span.ofBounds] at hs
    split at hs
    · split at hs
      · simp only [Except.toOption, Option.some.injEq] at hs
        rw [← hs]
        exact hb
      · simp [Except.toOption] at hs
    · simp [Except.toOption] at hs
  · intro h
    exact ⟨_, h, by rw [Span.ofBounds_low_high]; rfl⟩

theorem holds_ofGaps {bounds : List (Nat × Nat)} {v : Nat} :
    Holds (ofGaps bounds) v ↔ ∃ b ∈ bounds, b.1 ≤ v ∧ v ≤ b.2 ∧ b.2 ≤ lastVersion := by
  constructor
  · intro h
    obtain ⟨s, hs, hv⟩ := h
    exact ⟨_, mem_ofGaps.mp hs, hv.1, hv.2, s.bounded⟩
  · intro h
    obtain ⟨b, hb, hlow, hhigh, hbounded⟩ := h
    exact ⟨⟨b.1, b.2, by omega, hbounded⟩, mem_ofGaps.mpr hb, hlow, hhigh⟩

theorem separated_ofGaps {bounds : List (Nat × Nat)}
    (h : bounds.Pairwise fun a b => a.2 + 1 < b.1) : Separated (ofGaps bounds) := by
  refine List.Pairwise.filterMap _ (fun a b hab s hs t ht => ?_) h
  have hsa : (s.low, s.high) ∈ [a] := mem_ofGaps.mp (List.mem_filterMap.mpr ⟨a, by simp, hs⟩)
  have htb : (t.low, t.high) ∈ [b] := mem_ofGaps.mp (List.mem_filterMap.mpr ⟨b, by simp, ht⟩)
  have ha : (s.low, s.high) = a := by simpa using hsa
  have hb : (t.low, t.high) = b := by simpa using htb
  rw [← ha, ← hb] at hab
  exact hab

/-- No pair is lost if all of them are in order and fit. -/
theorem map_ofBounds {bounds : List (Nat × Nat)}
    (h : ∀ b ∈ bounds, b.1 ≤ b.2 ∧ b.2 ≤ lastVersion) :
    bounds.map (fun b => Span.ofBounds b.1 b.2) = (ofGaps bounds).map Except.ok := by
  induction bounds with
  | nil => rfl
  | cons b rest ih =>
      obtain ⟨⟨hordered, hbounded⟩, hrest⟩ := List.forall_mem_cons.mp h
      have hspan : Span.ofBounds b.1 b.2 = .ok ⟨b.1, b.2, hordered, hbounded⟩ := by
        simp [Span.ofBounds, hordered, hbounded]
      have hcons : ofGaps (b :: rest) = ⟨b.1, b.2, hordered, hbounded⟩ :: ofGaps rest := by
        simp [ofGaps, hspan, Except.toOption]
      rw [List.map_cons, hspan, hcons, List.map_cons, ih hrest]

/-! ### The walk -/

theorem bounds_of_mem_gaps {high : Nat} {covers : Spans} {cursor : Nat} {b : Nat × Nat}
    (h : b ∈ gaps high covers cursor) : cursor ≤ b.1 ∧ b.1 ≤ b.2 ∧ b.2 ≤ high := by
  induction covers generalizing cursor with
  | nil =>
      simp only [gaps] at h
      split at h
      · rw [List.mem_singleton.mp h]
        omega
      · exact absurd h List.not_mem_nil
  | cons c rest ih =>
      have hc := c.ordered
      simp only [gaps] at h
      split at h
      · exact ih h
      · split at h
        · rcases List.mem_cons.mp h with hb | hb
          · rw [hb]
            omega
          · have := ih hb
            omega
        · have := ih h
          omega

theorem separated_gaps (high : Nat) (covers : Spans) (cursor : Nat) :
    (gaps high covers cursor).Pairwise fun a b => a.2 + 1 < b.1 := by
  induction covers generalizing cursor with
  | nil =>
      simp only [gaps]
      split <;> simp
  | cons c rest ih =>
      have hc := c.ordered
      simp only [gaps]
      split
      · exact ih cursor
      · split
        · refine List.pairwise_cons.mpr ⟨fun b hb => ?_, ih _⟩
          have := bounds_of_mem_gaps hb
          show c.low - 1 + 1 < b.1
          omega
        · exact ih _

/-- Taking versions away leaves separate spans, whatever the covers. -/
theorem separated_remove {l : Spans} (hl : Separated l) (covers : Spans) :
    Separated (l.remove covers) := by
  refine List.pairwise_flatMap.mpr ⟨fun s _ => ?_, ?_⟩
  · exact separated_ofGaps (separated_gaps s.high covers s.low)
  · refine hl.imp fun {s t} hst x hx y hy => ?_
    have hxs := bounds_of_mem_gaps (mem_ofGaps.mp hx)
    have hyt := bounds_of_mem_gaps (mem_ofGaps.mp hy)
    simp only at hxs hyt
    omega

/-! ### What the walk leaves -/

/-- The low bounds ascend.  The spans may overlap or lie side by side. -/
def Ascending (l : Spans) : Prop := l.Pairwise fun a b => a.low ≤ b.low

theorem Separated.ascending {l : Spans} (h : Separated l) : Ascending l := by
  refine h.imp fun {a b} hab => ?_
  have := a.ordered
  omega

/-- **Along ascending covers the gaps hold what no cover does.** -/
theorem mem_gaps_iff {covers : Spans} (hcovers : Ascending covers) {high cursor v : Nat} :
    (∃ b ∈ gaps high covers cursor, b.1 ≤ v ∧ v ≤ b.2) ↔
      cursor ≤ v ∧ v ≤ high ∧ ¬ Holds covers v := by
  induction covers generalizing cursor with
  | nil =>
      unfold gaps
      by_cases h : cursor ≤ high
      · simp [h, not_holds_nil]
      · simp only [h, if_false, List.not_mem_nil, false_and, exists_false, false_iff]
        omega
  | cons c rest ih =>
      obtain ⟨hc, hrest⟩ := List.pairwise_cons.mp hcovers
      have hordered := c.ordered
      -- A later cover starts behind this one's start, and holds no version in front of it.
      have hlater : Holds rest v → c.low ≤ v := by
        intro hheld
        obtain ⟨r, hr, hv⟩ := hheld
        exact Nat.le_trans (hc r hr) hv.1
      have hcons : ¬ Holds (c :: rest) v ↔ ¬ (c.low ≤ v ∧ v ≤ c.high) ∧ ¬ Holds rest v := by
        rw [holds_cons, Span.mem_iff, not_or]
      rw [hcons]
      simp only [gaps]
      by_cases hskip : c.high < cursor ∨ high < c.low
      · rw [if_pos hskip, ih hrest]
        by_cases hheld : Holds rest v
        · simp only [hheld, not_true, and_false]
        · simp only [hheld, not_false_iff, and_true]
          omega
      · rw [if_neg hskip]
        by_cases hfree : cursor < c.low
        · rw [if_pos hfree]
          simp only [List.mem_cons, exists_eq_or_imp, ih hrest]
          by_cases hheld : Holds rest v
          · have hle := hlater hheld
            simp only [hheld, not_true, and_false, or_false, iff_false]
            omega
          · simp only [hheld, not_false_iff, and_true]
            omega
        · rw [if_neg hfree, ih hrest]
          by_cases hheld : Holds rest v
          · simp only [hheld, not_true, and_false]
          · simp only [hheld, not_false_iff, and_true]
            omega

/-- What none of the covers holds is left free, in whatever order they come. -/
theorem exists_mem_gaps {covers : Spans} {high cursor v : Nat} (hlow : cursor ≤ v)
    (hhigh : v ≤ high) (hfree : ¬ Holds covers v) :
    ∃ b ∈ gaps high covers cursor, b.1 ≤ v ∧ v ≤ b.2 := by
  induction covers generalizing cursor with
  | nil =>
      have hcursor : cursor ≤ high := by omega
      simpa [gaps, hcursor] using ⟨hlow, hhigh⟩
  | cons c rest ih =>
      obtain ⟨hc, hrest⟩ := not_or.mp (mt holds_cons.mpr hfree)
      rw [Span.mem_iff] at hc
      simp only [gaps]
      split
      · exact ih hlow hrest
      · split
        · -- Either the gap in front of the cover is wide enough, or `v` lies behind the cover.
          by_cases hfront : v < c.low
          · refine ⟨(cursor, c.low - 1), by simp, hlow, ?_⟩
            show v ≤ c.low - 1
            omega
          · obtain ⟨b, hb, hv⟩ := ih (show c.high + 1 ≤ v by omega) hrest
            exact ⟨b, List.mem_cons_of_mem _ hb, hv⟩
        · exact ih (by omega) hrest

/-! ### Taking covers away from every span -/

theorem remove_eq_ofGaps (l covers : Spans) :
    l.remove covers = ofGaps (l.flatMap fun s => gaps s.high covers s.low) := by
  unfold remove ofGaps
  rw [List.filterMap_flatMap]

/-- The walks come up with bounds that are in order and fit. -/
theorem bounds_of_mem_flatMap_gaps {l covers : Spans} {b : Nat × Nat}
    (h : b ∈ l.flatMap fun s => gaps s.high covers s.low) : b.1 ≤ b.2 ∧ b.2 ≤ lastVersion := by
  obtain ⟨s, -, hb⟩ := List.mem_flatMap.mp h
  obtain ⟨-, hordered, hhigh⟩ := bounds_of_mem_gaps hb
  exact ⟨hordered, Nat.le_trans hhigh s.bounded⟩

theorem holds_remove_iff {l covers : Spans} {v : Nat} :
    Holds (l.remove covers) v ↔
      ∃ s ∈ l, ∃ b ∈ gaps s.high covers s.low, b.1 ≤ v ∧ v ≤ b.2 := by
  rw [remove_eq_ofGaps, holds_ofGaps]
  constructor
  · intro h
    obtain ⟨b, hb, hlow, hhigh, -⟩ := h
    obtain ⟨s, hs, hb⟩ := List.mem_flatMap.mp hb
    exact ⟨s, hs, b, hb, hlow, hhigh⟩
  · intro h
    obtain ⟨s, hs, b, hb, hlow, hhigh⟩ := h
    have hmem : b ∈ l.flatMap fun s => gaps s.high covers s.low :=
      List.mem_flatMap.mpr ⟨s, hs, hb⟩
    exact ⟨b, hmem, hlow, hhigh, (bounds_of_mem_flatMap_gaps hmem).2⟩

/-- **Taking ascending covers away takes their versions away and no others.** -/
theorem holds_remove {l covers : Spans} (hcovers : Ascending covers) {v : Nat} :
    Holds (l.remove covers) v ↔ Holds l v ∧ ¬ Holds covers v := by
  have hwalk : ∀ s : Span, (∃ b ∈ gaps s.high covers s.low, b.1 ≤ v ∧ v ≤ b.2) ↔
      v ∈ s ∧ ¬ Holds covers v := by
    intro s
    rw [mem_gaps_iff hcovers, Span.mem_iff, and_assoc]
  rw [holds_remove_iff]
  simp only [hwalk]
  simp only [← and_assoc, exists_and_right]
  rfl

/-- Covers in any order leave versions of the spans and no others. -/
theorem holds_of_holds_remove {l covers : Spans} {v : Nat} (h : Holds (l.remove covers) v) :
    Holds l v := by
  obtain ⟨s, hs, b, hb, hlow, hhigh⟩ := holds_remove_iff.mp h
  have hbounds := bounds_of_mem_gaps hb
  exact ⟨s, hs, Span.mem_iff.mpr ⟨by omega, by omega⟩⟩

/-- Covers in any order leave the versions that none of them holds. -/
theorem holds_remove_of_free {l covers : Spans} {v : Nat} (h : Holds l v)
    (hfree : ¬ Holds covers v) : Holds (l.remove covers) v := by
  obtain ⟨s, hs, hlow, hhigh⟩ := h
  exact holds_remove_iff.mpr ⟨s, hs, exists_mem_gaps hlow hhigh hfree⟩

/-- The walks make spans of all the bounds they come up with, and those are what is left. -/
theorem map_ofBounds_gaps (l covers : Spans) :
    (l.flatMap fun s => gaps s.high covers s.low).map (fun b => Span.ofBounds b.1 b.2) =
      (l.remove covers).map Except.ok := by
  rw [remove_eq_ofGaps]
  exact map_ofBounds fun b hb => bounds_of_mem_flatMap_gaps hb

end Subprotocol.Spans

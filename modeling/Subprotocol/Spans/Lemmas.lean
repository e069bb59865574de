/-
What the operations on spans do to the set of versions.

`Holds` is the view: a list of spans is looked at as the set of versions that its
spans hold.  Adding a span adds its versions and no others, and keeps the list
separated.  Two things make this work.  The spans before the new one end too low to
meet it, and stay; of those behind it, the ones that meet it stand first, and the hull
of spans that meet holds exactly what they hold.

A separated list is determined by its view.  The least version it holds is the low
bound of the first span, and the first version missing after that is one past its high
bound, so two lists with the same view start with the same span, and go on so.
-/
import Subprotocol.Spans

namespace Subprotocol.Spans

/-! ### The view -/

theorem not_holds_nil (v : Nat) : ¬ Holds [] v := by
  intro h
  obtain ⟨s, hs, -⟩ := h
  exact absurd hs List.not_mem_nil

theorem holds_cons {s : Span} {l : Spans} {v : Nat} : Holds (s :: l) v ↔ v ∈ s ∨ Holds l v := by
  simp [Holds]

theorem holds_append {l m : Spans} {v : Nat} : Holds (l ++ m) v ↔ Holds l v ∨ Holds m v := by
  simp only [Holds, List.mem_append]
  constructor
  · intro h
    rcases h with ⟨s, hs | hs, hv⟩
    · exact .inl ⟨s, hs, hv⟩
    · exact .inr ⟨s, hs, hv⟩
  · intro h
    rcases h with ⟨s, hs, hv⟩ | ⟨s, hs, hv⟩
    · exact ⟨s, .inl hs, hv⟩
    · exact ⟨s, .inr hs, hv⟩

theorem Separated.tail {s : Span} {l : Spans} (h : Separated (s :: l)) : Separated l :=
  (List.pairwise_cons.mp h).2

theorem Separated.gap {s : Span} {l : Spans} (h : Separated (s :: l)) :
    ∀ r ∈ l, s.high + 1 < r.low :=
  (List.pairwise_cons.mp h).1

/-- A bound below the first span is a bound below all of them. -/
theorem Separated.lt_low {s : Span} {l : Spans} (h : Separated (s :: l)) {b : Nat}
    (hb : b < s.low) : ∀ r ∈ s :: l, b < r.low := by
  intro r hr
  rcases List.mem_cons.mp hr with rfl | hr
  · exact hb
  · have hgap := h.gap r hr
    have hordered := s.ordered
    omega

/-- Everything behind the first span lies above it, with a gap between. -/
theorem lt_of_holds_of_separated {s : Span} {l : Spans} (h : Separated (s :: l)) {v : Nat}
    (hv : Holds l v) : s.high + 1 < v := by
  obtain ⟨r, hr, hrv⟩ := hv
  have hlow := h.gap r hr
  have hmem := Span.mem_iff.mp hrv
  omega

theorem supports_cons (s : Span) (l : Spans) (v : Nat) :
    supports (s :: l) v = if v ≤ s.high then decide (v ∈ s) else supports l v := by
  by_cases h : v ≤ s.high <;> simp [supports, h]

/-- On a separated list the first span that could hold a version is the only one. -/
theorem supports_iff_holds {l : Spans} (hl : Separated l) {v : Nat} :
    supports l v = true ↔ Holds l v := by
  induction l with
  | nil => simpa [supports] using not_holds_nil v
  | cons s rest ih =>
    rw [supports_cons, holds_cons]
    by_cases h : v ≤ s.high
    · have hrest : ¬ Holds rest v := by
        intro hv
        have := lt_of_holds_of_separated hl hv
        omega
      simp [h, hrest]
    · have hs : ¬ v ∈ s := fun hv => h (Span.mem_iff.mp hv).2
      simp [h, hs, ih hl.tail]

/-- Each span of a separated list is as long as it can be: a version next to it is missing. -/
theorem Separated.not_holds_beside {l : Spans} (hl : Separated l) {s : Span} (hs : s ∈ l) {v : Nat}
    (hout : v ∉ s) (hbefore : s.low ≤ v + 1) (hbehind : v ≤ s.high + 1) : ¬ Holds l v := by
  induction l with
  | nil => exact absurd hs List.not_mem_nil
  | cons r rest ih =>
      intro h
      rcases List.mem_cons.mp hs with rfl | hs
      · rcases holds_cons.mp h with hv | hv
        · exact hout hv
        · have := lt_of_holds_of_separated hl hv
          omega
      · have hgap := hl.gap s hs
        rcases holds_cons.mp h with hv | hv
        · have := (Span.mem_iff.mp hv).2
          omega
        · exact ih hl.tail hs hv

/-! ### Adding a span -/

theorem holds_absorb {l : Spans} {s : Span} {v : Nat} :
    Holds (absorb s l) v ↔ v ∈ s ∨ Holds l v := by
  induction l generalizing s with
  | nil => simp [absorb, holds_cons]
  | cons r rest ih =>
    by_cases h : s.Meets r
    · simp only [absorb, h, if_true, ih, Span.mem_hull_iff h, holds_cons, or_assoc]
    · simp only [absorb, h, if_false, holds_cons]

theorem holds_insert {l : Spans} {s : Span} {v : Nat} :
    Holds (l.insert s) v ↔ Holds l v ∨ v ∈ s := by
  have hl : Holds l v ↔
      Holds (l.takeWhile (·.high + 1 < s.low)) v ∨ Holds (l.dropWhile (·.high + 1 < s.low)) v := by
    rw [← holds_append, List.takeWhile_append_dropWhile]
  rw [insert, holds_append, holds_absorb, hl, or_assoc, or_comm (a := v ∈ s)]

/-- A bound below the span and below the list is a bound below what `absorb` makes of them. -/
private theorem lt_low_of_mem_absorb {l : Spans} {s : Span} {b : Nat} (hs : b < s.low)
    (hl : ∀ r ∈ l, b < r.low) : ∀ x ∈ absorb s l, b < x.low := by
  induction l generalizing s with
  | nil => simpa [absorb] using hs
  | cons r rest ih =>
    have hrest : ∀ x ∈ rest, b < x.low := fun x hx => hl x (by simp [hx])
    by_cases h : s.Meets r
    · have hhull : b < (s.hull r).low := by
        have := hl r (by simp)
        rw [Span.low_hull]
        omega
      simpa only [absorb, h, if_true] using ih hhull hrest
    · simp only [absorb, h, if_false]
      intro x hx
      rcases List.mem_cons.mp hx with rfl | hx
      · exact hs
      · exact hl x hx

/-- A span that does not start above the list is joined with what it meets, and then
stands apart from the rest. -/
private theorem separated_absorb {l : Spans} {s : Span} (hl : Separated l)
    (hs : ∀ r ∈ l, s.low ≤ r.high + 1) : Separated (absorb s l) := by
  induction l generalizing s with
  | nil => simp [absorb, Separated]
  | cons r rest ih =>
    by_cases h : s.Meets r
    · have hhull : ∀ x ∈ rest, (s.hull r).low ≤ x.high + 1 := by
        intro x hx
        have := hs x (by simp [hx])
        rw [Span.low_hull]
        omega
      simpa only [absorb, h, if_true] using ih hl.tail hhull
    · have hlow : s.high + 1 < r.low := Span.lt_low_of_not_meets h (hs r (by simp))
      simp only [absorb, h, if_false]
      exact List.pairwise_cons.mpr ⟨hl.lt_low hlow, hl⟩

theorem separated_insert {l : Spans} {s : Span} (hl : Separated l) : Separated (l.insert s) := by
  induction l with
  | nil => simp [insert, absorb, Separated]
  | cons r rest ih =>
    by_cases h : r.high + 1 < s.low
    · have hcons : insert (r :: rest) s = r :: insert rest s := by simp [insert, h]
      rw [hcons]
      refine List.pairwise_cons.mpr ⟨?_, ih hl.tail⟩
      intro x hx
      rw [insert, List.mem_append] at hx
      have hrest := hl.gap
      rcases hx with hx | hx
      · exact hrest x ((List.takeWhile_sublist _).mem hx)
      · exact lt_low_of_mem_absorb h (fun y hy => hrest y ((List.dropWhile_sublist _).mem hy)) x hx
    · have hcons : insert (r :: rest) s = absorb s (r :: rest) := by simp [insert, h]
      rw [hcons]
      refine separated_absorb hl ?_
      intro x hx
      rcases List.mem_cons.mp hx with rfl | hx
      · omega
      · have hgap := hl.gap x hx
        have := x.ordered
        omega

theorem holds_insertAll {l new : Spans} {v : Nat} :
    Holds (l.insertAll new) v ↔ Holds l v ∨ Holds new v := by
  induction new generalizing l with
  | nil => simp [insertAll, not_holds_nil]
  | cons s rest ih =>
    have hstep : insertAll l (s :: rest) = insertAll (l.insert s) rest := rfl
    rw [hstep, ih, holds_insert, holds_cons, or_assoc]

theorem separated_insertAll {l new : Spans} (hl : Separated l) : Separated (l.insertAll new) := by
  induction new generalizing l with
  | nil => exact hl
  | cons s rest ih => exact ih (separated_insert hl)

theorem holds_ofList {l : Spans} {v : Nat} : Holds (ofList l) v ↔ Holds l v := by
  rw [ofList, holds_insertAll]
  simp [not_holds_nil]

theorem separated_ofList (l : Spans) : Separated (ofList l) :=
  separated_insertAll List.Pairwise.nil

/-! ### The view determines the list -/

private theorem low_le_of_holds {s : Span} {l : Spans} (h : Separated (s :: l)) {v : Nat}
    (hv : Holds (s :: l) v) : s.low ≤ v := by
  rcases holds_cons.mp hv with hv | hv
  · exact (Span.mem_iff.mp hv).1
  · have := lt_of_holds_of_separated h hv
    have := s.ordered
    omega

private theorem high_le_of_view {s t : Span} {l m : Spans} (hl : Separated (s :: l))
    (hlow : s.low = t.low) (h : ∀ v, Holds (s :: l) v ↔ Holds (t :: m) v) : t.high ≤ s.high := by
  refine Nat.le_of_not_lt fun hlt => ?_
  have hs := s.ordered
  have hnext : s.high + 1 ∈ t := Span.mem_iff.mpr ⟨by omega, by omega⟩
  rcases holds_cons.mp ((h _).mpr (holds_cons.mpr (.inl hnext))) with hmem | hmem
  · have := (Span.mem_iff.mp hmem).2
    omega
  · have := lt_of_holds_of_separated hl hmem
    omega

/-- Separated lists that hold the same versions are the same list. -/
theorem eq_of_holds_iff {l m : Spans} (hl : Separated l) (hm : Separated m)
    (h : ∀ v, Holds l v ↔ Holds m v) : l = m := by
  induction l generalizing m with
  | nil =>
    cases m with
    | nil => rfl
    | cons t m =>
      exact absurd ((h _).mpr (holds_cons.mpr (.inl t.low_mem))) (not_holds_nil _)
  | cons s l ih =>
    cases m with
    | nil =>
      exact absurd ((h _).mp (holds_cons.mpr (.inl s.low_mem))) (not_holds_nil _)
    | cons t m =>
      have hlow : s.low = t.low := Nat.le_antisymm
        (low_le_of_holds hl ((h _).mpr (holds_cons.mpr (.inl t.low_mem))))
        (low_le_of_holds hm ((h _).mp (holds_cons.mpr (.inl s.low_mem))))
      have hhigh : s.high = t.high := Nat.le_antisymm
        (high_le_of_view hm hlow.symm fun v => (h v).symm) (high_le_of_view hl hlow h)
      have hst : s = t := by
        cases s
        cases t
        simp_all
      subst hst
      refine congrArg (s :: ·) (ih hl.tail hm.tail fun v => ?_)
      constructor
      · intro hv
        have hgap := lt_of_holds_of_separated hl hv
        rcases holds_cons.mp ((h v).mp (holds_cons.mpr (.inr hv))) with hmem | hmem
        · have := (Span.mem_iff.mp hmem).2
          omega
        · exact hmem
      · intro hv
        have hgap := lt_of_holds_of_separated hm hv
        rcases holds_cons.mp ((h v).mpr (holds_cons.mpr (.inr hv))) with hmem | hmem
        · have := (Span.mem_iff.mp hmem).2
          omega
        · exact hmem

end Subprotocol.Spans

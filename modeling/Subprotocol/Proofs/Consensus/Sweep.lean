/-
The walk over the shifts counts every version.

`level` is what the walk works towards: the running count at a version, as the sum of the
shifts up to there.  For the shifts of some spans it is the number of spans that hold the
version, since a span has shifted the count up but not yet down again exactly at the
versions it holds.

The walk itself never looks at a version.  It knows four things at every shift, which
`Walking` collects: the positions ahead ascend, a stretch is open exactly while the count
reaches what is needed, it was opened before all positions ahead, and the shifts ahead take
the count below what is needed in the end.  Each step keeps them.  So the pairs that the
walk yields cover a version exactly when the level there reaches what is needed, by
induction on the shifts ahead.
-/
import Subprotocol.Consensus
import Subprotocol.Proofs.Spans.Gaps

namespace Subprotocol.Consensus

/-- The shifts stand in the order of their positions, and no two at the same. -/
def Ascending (l : List Shift) : Prop := l.Pairwise fun a b => a.position < b.position

/-- What the shifts change together. -/
def total (l : List Shift) : Int := l.foldr (fun s n => s.change + n) 0

@[simp] theorem level_nil (v : Nat) : level [] v = 0 := rfl

theorem level_cons (s : Shift) (l : List Shift) (v : Nat) :
    level (s :: l) v = if s.position ≤ v then s.change + level l v else level l v := rfl

@[simp] theorem total_nil : total [] = 0 := rfl

@[simp] theorem total_cons (s : Shift) (l : List Shift) :
    total (s :: l) = s.change + total l := rfl

theorem shifts_cons (s : Span) (spans : Spans) :
    shifts (s :: spans) = record s.low 1 (record (s.high + 1) (-1) (shifts spans)) := rfl

/-! ### Recording shifts -/

theorem level_record (p v : Nat) (change : Int) (l : List Shift) :
    level (record p change l) v = level l v + if p ≤ v then change else 0 := by
  induction l with
  | nil => simp [record, level_cons]
  | cons s rest ih =>
      simp only [record]
      split
      · simp only [level_cons]
        split <;> split <;> omega
      · split
        · rename_i heq
          simp only [level_cons, heq]
          split <;> omega
        · simp only [level_cons, ih]
          split <;> split <;> omega

theorem total_record (p : Nat) (change : Int) (l : List Shift) :
    total (record p change l) = total l + change := by
  induction l with
  | nil => simp [record]
  | cons s rest ih =>
      simp only [record]
      split
      · simp only [total_cons]
        omega
      · split
        · simp only [total_cons]
          omega
        · simp only [total_cons, ih]
          omega

theorem position_of_mem_record {p : Nat} {change : Int} {l : List Shift} {s : Shift}
    (h : s ∈ record p change l) : s.position = p ∨ ∃ t ∈ l, s.position = t.position := by
  induction l with
  | nil => exact Or.inl (by rw [List.mem_singleton.mp h])
  | cons t rest ih =>
      simp only [record] at h
      split at h
      · rcases List.mem_cons.mp h with hs | hs
        · exact Or.inl (by rw [hs])
        · exact Or.inr ⟨s, hs, rfl⟩
      · split at h
        · rcases List.mem_cons.mp h with hs | hs
          · exact Or.inl (by rw [hs])
          · exact Or.inr ⟨s, List.mem_cons_of_mem t hs, rfl⟩
        · rcases List.mem_cons.mp h with hs | hs
          · exact Or.inr ⟨t, by simp, by rw [hs]⟩
          · rcases ih hs with hp | ⟨u, hu, hsu⟩
            · exact Or.inl hp
            · exact Or.inr ⟨u, List.mem_cons_of_mem t hu, hsu⟩

theorem ascending_record {p : Nat} {change : Int} {l : List Shift} (hl : Ascending l) :
    Ascending (record p change l) := by
  induction l with
  | nil => simp [record, Ascending]
  | cons t rest ih =>
      obtain ⟨ht, hrest⟩ := List.pairwise_cons.mp hl
      simp only [record]
      split
      · rename_i hlt
        refine List.pairwise_cons.mpr ⟨fun s hs => ?_, hl⟩
        rcases List.mem_cons.mp hs with hst | hs
        · rw [hst]
          exact hlt
        · exact Nat.lt_trans hlt (ht s hs)
      · split
        · rename_i heq
          refine List.pairwise_cons.mpr ⟨fun s hs => ?_, hrest⟩
          show p < s.position
          rw [heq]
          exact ht s hs
        · refine List.pairwise_cons.mpr ⟨fun s hs => ?_, ih hrest⟩
          rcases position_of_mem_record hs with hp | ⟨u, hu, hsu⟩
          · omega
          · rw [hsu]
            exact ht u hu

/-! ### The shifts of some spans -/

theorem ascending_shifts (spans : Spans) : Ascending (shifts spans) := by
  induction spans with
  | nil => exact List.Pairwise.nil
  | cons s rest ih => exact ascending_record (ascending_record ih)

theorem total_shifts (spans : Spans) : total (shifts spans) = 0 := by
  induction spans with
  | nil => rfl
  | cons s rest ih =>
      rw [shifts_cons, total_record, total_record, ih]
      omega

/-- A span shifts the count where it starts and behind its end. -/
theorem position_of_mem_shifts {spans : Spans} {s : Shift} (h : s ∈ shifts spans) :
    ∃ t ∈ spans, s.position = t.low ∨ s.position = t.high + 1 := by
  induction spans generalizing s with
  | nil => exact absurd h List.not_mem_nil
  | cons t rest ih =>
      rw [shifts_cons] at h
      rcases position_of_mem_record h with hlow | ⟨u, hu, hsu⟩
      · exact ⟨t, by simp, Or.inl hlow⟩
      · rw [hsu]
        rcases position_of_mem_record hu with hhigh | ⟨w, hw, huw⟩
        · exact ⟨t, by simp, Or.inr hhigh⟩
        · obtain ⟨x, hx, hpos⟩ := ih hw
          rw [huw]
          exact ⟨x, List.mem_cons_of_mem t hx, hpos⟩

theorem position_le_of_mem_shifts {spans : Spans} {s : Shift} (h : s ∈ shifts spans) :
    s.position ≤ lastVersion + 1 := by
  obtain ⟨t, -, hpos⟩ := position_of_mem_shifts h
  have hordered := t.ordered
  have hbounded := t.bounded
  omega

/-- **The level at a version is the number of spans that hold it.** -/
theorem level_shifts (spans : Spans) (v : Nat) :
    level (shifts spans) v = spans.countP (v ∈ ·) := by
  induction spans with
  | nil => rfl
  | cons s rest ih =>
      have hordered := s.ordered
      rw [shifts_cons, level_record, level_record, ih, List.countP_cons]
      by_cases hv : v ∈ s
      · have hbounds := Span.mem_iff.mp hv
        rw [if_neg (show ¬ s.high + 1 ≤ v by omega), if_pos hbounds.1, if_pos (decide_eq_true hv)]
        omega
      · have hbounds : ¬ (s.low ≤ v ∧ v ≤ s.high) := fun h => hv (Span.mem_iff.mpr h)
        simp only [decide_eq_true_eq, hv, if_false]
        split <;> split <;> omega

/-! ### The walk -/

/-- What the walk knows when the shifts `l` are ahead of it. -/
structure Walking (needed count : Int) (opened : Option Nat) (l : List Shift) : Prop where
  ascending : Ascending l
  opened_iff : opened.isSome ↔ needed ≤ count
  started : ∀ start ∈ opened, ∀ s ∈ l, start < s.position
  settles : count + total l < needed

theorem level_eq_zero {l : List Shift} {v : Nat} (h : ∀ s ∈ l, v < s.position) :
    level l v = 0 := by
  induction l with
  | nil => rfl
  | cons s rest ih =>
      have hs := h s (by simp)
      rw [level_cons, if_neg (by omega), ih fun t ht => h t (List.mem_cons_of_mem s ht)]

variable {needed count : Int} {opened : Option Nat} {s : Shift} {l : List Shift}

/-- A shift that leaves the count high enough keeps a stretch open or opens one. -/
theorem Walking.step_open (h : Walking needed count opened (s :: l))
    (hcount : needed ≤ count + s.change) :
    Walking needed (count + s.change) (opened.or (some s.position)) l := by
  obtain ⟨hs, hl⟩ := List.pairwise_cons.mp h.ascending
  refine ⟨hl, by simp [hcount], fun start hstart t ht => ?_, ?_⟩
  · cases hopened : opened with
    | none =>
        rw [hopened] at hstart
        have hpos : s.position = start := by simpa using hstart
        rw [← hpos]
        exact hs t ht
    | some first =>
        rw [hopened] at hstart
        have hfirst : first = start := by simpa using hstart
        rw [← hfirst]
        exact h.started first hopened t (List.mem_cons_of_mem s ht)
  · have hsettles := h.settles
    rw [total_cons] at hsettles
    omega

/-- A shift that takes the count too low leaves no stretch open. -/
theorem Walking.step_closed (h : Walking needed count opened (s :: l))
    (hcount : count + s.change < needed) : Walking needed (count + s.change) none l := by
  refine ⟨(List.pairwise_cons.mp h.ascending).2, ?_, by simp, ?_⟩
  · simpa using hcount
  · have hsettles := h.settles
    rw [total_cons] at hsettles
    omega

theorem stretches_cons_open (hcount : needed ≤ count + s.change) :
    stretches needed count opened (s :: l) =
      stretches needed (count + s.change) (opened.or (some s.position)) l := by
  cases opened <;> simp [stretches, hcount]

theorem stretches_cons_closed (hcount : count + s.change < needed) :
    stretches needed count opened (s :: l) =
      opened.toList.map (·, s.position) ++ stretches needed (count + s.change) none l := by
  have hnot : ¬ needed ≤ count + s.change := by omega
  cases opened <;> simp [stretches, hnot]

/-- A stretch holds some version, and ends at one of the shifts. -/
theorem Walking.bounds_of_mem (h : Walking needed count opened l) {b : Nat × Nat}
    (hb : b ∈ stretches needed count opened l) : b.1 < b.2 ∧ ∃ s ∈ l, b.2 = s.position := by
  induction l generalizing count opened with
  | nil =>
      simp only [stretches] at hb
      exact absurd hb List.not_mem_nil
  | cons s rest ih =>
      by_cases hcount : needed ≤ count + s.change
      · rw [stretches_cons_open hcount] at hb
        obtain ⟨hlt, t, ht, hpos⟩ := ih (h.step_open hcount) hb
        exact ⟨hlt, t, List.mem_cons_of_mem s ht, hpos⟩
      · have hlow : count + s.change < needed := by omega
        rw [stretches_cons_closed hlow, List.mem_append] at hb
        rcases hb with hb | hb
        · obtain ⟨start, hstart, rfl⟩ := List.mem_map.mp hb
          exact ⟨h.started start (by simpa using hstart) s (by simp), s, by simp, rfl⟩
        · obtain ⟨hlt, t, ht, hpos⟩ := ih (h.step_closed hlow) hb
          exact ⟨hlt, t, List.mem_cons_of_mem s ht, hpos⟩

private theorem covers_closed {position v : Nat} :
    (∃ b ∈ opened.toList.map (·, position), b.1 ≤ v ∧ v < b.2) ↔
      ∃ start ∈ opened, start ≤ v ∧ v < position := by
  cases opened <;> simp

/-- **The walk covers a version exactly when the level there reaches what is needed**, as
far as it has not passed the version already. -/
theorem Walking.mem_stretches_iff (h : Walking needed count opened l) {v : Nat} :
    (∃ b ∈ stretches needed count opened l, b.1 ≤ v ∧ v < b.2) ↔
      needed ≤ count + level l v ∧ ∀ start ∈ opened, start ≤ v := by
  induction l generalizing count opened with
  | nil =>
      have hsettles := h.settles
      rw [total_nil] at hsettles
      rw [level_nil]
      constructor
      · intro hb
        obtain ⟨b, hb, -⟩ := hb
        rw [stretches] at hb
        exact absurd hb List.not_mem_nil
      · intro hv
        omega
  | cons s rest ih =>
      -- Before the next shift, everything ahead is still without effect.
      have hbefore : v < s.position → level rest v = 0 := by
        intro hv
        refine level_eq_zero fun t ht => ?_
        exact Nat.lt_trans hv ((List.pairwise_cons.mp h.ascending).1 t ht)
      have hopened := h.opened_iff
      have hstarted := h.started
      by_cases hcount : needed ≤ count + s.change
      · rw [stretches_cons_open hcount, ih (h.step_open hcount), level_cons]
        cases opened with
        | none =>
            have hlow : ¬ needed ≤ count := by simpa using hopened
            simp only [Option.none_or, Option.mem_some_iff, forall_eq', Option.not_mem_none,
              false_imp_iff, implies_true, and_true]
            split <;> omega
        | some start =>
            have henough : needed ≤ count := by simpa using hopened
            simp only [Option.some_or, Option.mem_some_iff, forall_eq']
            split <;> omega
      · have hlow : count + s.change < needed := by omega
        rw [stretches_cons_closed hlow]
        simp only [List.mem_append, or_and_right, exists_or]
        rw [covers_closed, ih (h.step_closed hlow), level_cons]
        cases opened with
        | none =>
            have hcount : ¬ needed ≤ count := by simpa using hopened
            simp only [Option.not_mem_none, false_and, exists_false, false_or, false_imp_iff,
              implies_true, and_true]
            split <;> omega
        | some start =>
            have henough : needed ≤ count := by simpa using hopened
            have hlt : start < s.position := hstarted start rfl s (by simp)
            simp only [Option.mem_some_iff, exists_eq_left', forall_eq', Option.not_mem_none,
              false_imp_iff, implies_true, and_true]
            split <;> omega

theorem walking_shifts {needed : Int} (hneeded : 0 < needed) (spans : Spans) :
    Walking needed 0 none (shifts spans) where
  ascending := ascending_shifts spans
  opened_iff := by simpa using hneeded
  started := by simp
  settles := by
    rw [total_shifts]
    omega

theorem bounds_of_mem_stretches (hneeded : 0 < needed) {spans : Spans} {b : Nat × Nat}
    (hb : b ∈ stretches needed 0 none (shifts spans)) :
    0 < b.2 ∧ b.1 ≤ b.2 - 1 ∧ b.2 - 1 ≤ lastVersion := by
  obtain ⟨hlt, s, hs, hpos⟩ := (walking_shifts hneeded spans).bounds_of_mem hb
  have hle := position_le_of_mem_shifts hs
  omega

/-! ### The versions that enough spans hold -/

/-- **Held by enough are the versions that enough spans hold.** -/
theorem holds_heldByEnough {needed : Int} (hneeded : 0 < needed) {spans : Spans} {v : Nat} :
    (heldByEnough needed spans).Holds v ↔ needed ≤ spans.countP (v ∈ ·) := by
  have hwalk := walking_shifts hneeded spans
  have hcovers := hwalk.mem_stretches_iff (v := v)
  rw [level_shifts] at hcovers
  have hfound : (heldByEnough needed spans).Holds v ↔
      ∃ b ∈ stretches needed 0 none (shifts spans), b.1 ≤ v ∧ v < b.2 := by
    rw [heldByEnough, Spans.holds_ofList, Spans.holds_ofGaps]
    constructor
    · intro h
      obtain ⟨a, ha, hlow, hhigh, -⟩ := h
      obtain ⟨b, hb, rfl⟩ := List.mem_map.mp ha
      have hbounds := bounds_of_mem_stretches hneeded hb
      simp only at hlow hhigh
      exact ⟨b, hb, hlow, by omega⟩
    · intro h
      obtain ⟨b, hb, hlow, hhigh⟩ := h
      have hbounds := bounds_of_mem_stretches hneeded hb
      refine ⟨(b.1, b.2 - 1), List.mem_map.mpr ⟨b, hb, rfl⟩, hlow, ?_, ?_⟩
      · show v ≤ b.2 - 1
        omega
      · show b.2 - 1 ≤ lastVersion
        omega
  rw [hfound, hcovers]
  simp

theorem separated_heldByEnough (needed : Int) (spans : Spans) :
    (heldByEnough needed spans).Separated :=
  Spans.separated_ofList _

end Subprotocol.Consensus

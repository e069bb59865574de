/-
The loop over the changes of the count never leaves its bounds.

`stretches` takes one shift for each position, with the changes there added up beforehand.  It can
be done in one pass over the bare changes as well, sorted by position in any way.  The loop adds
one change after the other to the count, and judges the count where the next change stands at
another position.  What it knows on the way is a `Stand`.

Three steps lead from the loop to the walk.  Adding up the changes does not depend on their order,
so any order of them has the same shifts.  Along a sorted order the loop may as well add changes at
one position up first.  And where every position has one change, the loop is the walk.

So the count behind all changes up to a version is the level there, which for ballots is the
number of those that list the version.  A pair that the loop closes starts and ends where changes
stand, the start in front of the end, and no change stands further up than one behind the last
version.  That makes the pairs bounds of spans, and since the next stretch opens later than the last
one closed, of separate ones.
-/
import Subprotocol.Proofs.Consensus.Bounds

namespace Subprotocol.Consensus

/-! ### The changes of the count -/

/-- The changes that the spans cause, one where each starts and one behind its end. -/
def changes (spans : Spans) : List Shift :=
  spans.flatMap fun s => [⟨s.low, 1⟩, ⟨s.high + 1, -1⟩]

/-- The changes in the order of their positions, which leaves open how those at one position
stand. -/
structure InOrder (spans : Spans) (order : List Shift) : Prop where
  perm : order.Perm (changes spans)
  sorted : order.Pairwise fun a b => a.position ≤ b.position

/-- The shifts that the changes add up to. -/
def collect (l : List Shift) : List Shift :=
  l.foldr (fun c acc => record c.position c.change acc) []

/-! ### The loop -/

/-- What the loop has found out: the count so far, the start of the stretch that it is in, and the
stretches behind it. -/
structure Stand where
  count : Int
  opened : Option Nat
  closed : List (Nat × Nat)
deriving DecidableEq

namespace Stand

def start : Stand := ⟨0, none, []⟩

def add (w : Stand) (change : Int) : Stand := { w with count := w.count + change }

/-- A stretch opens or closes at `position`, if the count says so. -/
def judge (needed : Int) (w : Stand) (position : Nat) : Stand :=
  match w.opened with
  | none => if needed ≤ w.count then { w with opened := some position } else w
  | some start =>
    if needed ≤ w.count then w
    else { w with opened := none, closed := w.closed ++ [(start, position)] }

/-- The loop over the changes.  It judges behind the last change at a position. -/
def run (needed : Int) : Stand → List Shift → Stand
  | w, [] => w
  | w, c :: rest =>
    if rest.head?.any (·.position = c.position) then run needed (w.add c.change) rest
    else run needed ((w.add c.change).judge needed c.position) rest

variable {needed : Int} {w : Stand} {c d : Shift} {l m rest : List Shift}

theorem run_cons_last (h : ∀ d ∈ rest, d.position ≠ c.position) :
    w.run needed (c :: rest) = ((w.add c.change).judge needed c.position).run needed rest := by
  rw [run, if_neg]
  cases rest with
  | nil => simp
  | cons d tail => simpa using h d (by simp)

theorem run_cons_cons : w.run needed (c :: d :: rest) =
    if d.position = c.position then (w.add c.change).run needed (d :: rest)
    else ((w.add c.change).judge needed c.position).run needed (d :: rest) := by
  rw [run]
  simp only [List.head?_cons, Option.any_some, decide_eq_true_eq]

@[simp] theorem count_add (change : Int) : (w.add change).count = w.count + change := rfl

@[simp] theorem add_add (a b : Int) : (w.add a).add b = w.add (b + a) := by
  simp only [add]
  congr 1
  omega

/-- Two changes at one position are as good as one. -/
theorem run_add_cons (p : Nat) (a b : Int) :
    (w.add a).run needed (⟨p, b⟩ :: rest) = w.run needed (⟨p, b + a⟩ :: rest) := by
  simp only [run, add_add]

theorem judge_of_le (h : needed ≤ w.count) (p : Nat) :
    w.judge needed p = ⟨w.count, w.opened.or (some p), w.closed⟩ := by
  obtain ⟨count, opened, closed⟩ := w
  cases opened <;> simp_all [judge]

theorem judge_of_lt (h : w.count < needed) (p : Nat) :
    w.judge needed p = ⟨w.count, none, w.closed ++ w.opened.toList.map (·, p)⟩ := by
  have hnot : ¬ needed ≤ w.count := by omega
  obtain ⟨count, opened, closed⟩ := w
  cases opened <;> simp_all [judge]

@[simp] theorem count_judge (p : Nat) : (w.judge needed p).count = w.count := by
  rcases Int.lt_or_le w.count needed with hlt | hle
  · rw [judge_of_lt hlt]
  · rw [judge_of_le hle]

theorem isSome_opened_judge (p : Nat) : (w.judge needed p).opened.isSome ↔ needed ≤ w.count := by
  rcases Int.lt_or_le w.count needed with hlt | hle
  · simpa [judge_of_lt hlt] using hlt
  · simpa [judge_of_le hle] using hle

theorem closed_prefix_judge (w : Stand) (p : Nat) : w.closed <+: (w.judge needed p).closed := by
  rcases Int.lt_or_le w.count needed with hlt | hle
  · rw [judge_of_lt hlt]
    exact List.prefix_append ..
  · exact ⟨[], by rw [judge_of_le hle, List.append_nil]⟩

/-- What the loop has closed stays as it is. -/
theorem closed_prefix_run (w : Stand) (l : List Shift) :
    w.closed <+: (w.run needed l).closed := by
  induction l generalizing w with
  | nil => exact List.prefix_rfl
  | cons c rest ih =>
      rw [run]
      split
      · exact ih (w.add c.change)
      · exact (closed_prefix_judge (w.add c.change) c.position).trans (ih _)

theorem count_run (w : Stand) (l : List Shift) : (w.run needed l).count = w.count + total l := by
  induction l generalizing w with
  | nil => simp [run]
  | cons c rest ih =>
      simp only [run]
      split
      · rw [ih, total_cons, count_add, Int.add_assoc]
      · rw [ih, count_judge, total_cons, count_add, Int.add_assoc]

/-- The loop may stop between two positions and go on from there. -/
theorem run_append (h : ∀ a ∈ l, ∀ b ∈ m, a.position < b.position) :
    w.run needed (l ++ m) = (w.run needed l).run needed m := by
  induction l generalizing w with
  | nil => rfl
  | cons c rest ih =>
      obtain ⟨hc, hrest⟩ := List.forall_mem_cons.mp h
      cases rest with
      | nil => exact run_cons_last fun d hd => Nat.ne_of_gt (hc d hd)
      | cons d tail =>
          rw [List.cons_append, List.cons_append, run_cons_cons, run_cons_cons, ← List.cons_append]
          split
          · exact ih hrest
          · exact ih hrest

/-- Behind the changes at some position a stretch is open exactly where the count reaches what
is needed. -/
theorem isSome_opened_run (h : l = [] → (w.opened.isSome ↔ needed ≤ w.count)) :
    (w.run needed l).opened.isSome ↔ needed ≤ (w.run needed l).count := by
  induction l generalizing w with
  | nil => exact h rfl
  | cons c rest ih =>
      rw [run]
      split
      · rename_i hahead
        refine ih fun hnil => ?_
        simp [hnil] at hahead
      · refine ih fun _ => ?_
        rw [isSome_opened_judge, count_judge]

theorem isSome_opened_run_start (hneeded : 0 < needed) (l : List Shift) :
    (start.run needed l).opened.isSome ↔ needed ≤ (start.run needed l).count := by
  refine isSome_opened_run fun _ => ?_
  simpa [start] using hneeded

end Stand

/-! ### Adding up does not depend on the order -/

theorem collect_cons (c : Shift) (l : List Shift) :
    collect (c :: l) = record c.position c.change (collect l) := rfl

theorem changes_cons (s : Span) (spans : Spans) :
    changes (s :: spans) = ⟨s.low, 1⟩ :: ⟨s.high + 1, -1⟩ :: changes spans := rfl

theorem shifts_eq_collect (spans : Spans) : shifts spans = collect (changes spans) := by
  induction spans with
  | nil => rfl
  | cons s rest ih => rw [shifts_cons, ih, changes_cons, collect_cons, collect_cons]

theorem record_comm (p q : Nat) (a b : Int) (l : List Shift) :
    record p a (record q b l) = record q b (record p a l) := by
  induction l with
  | nil => grind [record]
  | cons s rest ih => grind [record]

theorem collect_perm {l m : List Shift} (h : l.Perm m) : collect l = collect m :=
  h.foldr_eq' (fun a _ b _ acc => record_comm b.position a.position b.change a.change acc) []

theorem level_collect (l : List Shift) (v : Nat) : level (collect l) v = level l v := by
  induction l with
  | nil => rfl
  | cons c rest ih =>
      rw [collect_cons, level_record, ih, level_cons]
      split <;> omega

theorem total_collect (l : List Shift) : total (collect l) = total l := by
  induction l with
  | nil => rfl
  | cons c rest ih => rw [collect_cons, total_record, ih, total_cons, Int.add_comm]

/-- A change at no later position than the others has its shift in front. -/
theorem exists_record_eq_cons {p : Nat} (change : Int) {l : List Shift}
    (h : ∀ s ∈ l, p ≤ s.position) : ∃ n tail, record p change l = ⟨p, n⟩ :: tail := by
  cases l with
  | nil => exact ⟨change, [], rfl⟩
  | cons s rest =>
      have hs := h s (by simp)
      by_cases hlt : p < s.position
      · exact ⟨change, s :: rest, by simp [record, hlt]⟩
      · have heq : p = s.position := by omega
        exact ⟨s.change + change, rest, by simp [record, heq]⟩

theorem position_of_mem_collect {l : List Shift} {s : Shift} (h : s ∈ collect l) :
    ∃ c ∈ l, s.position = c.position := by
  induction l generalizing s with
  | nil => exact absurd h List.not_mem_nil
  | cons c rest ih =>
      rcases position_of_mem_record h with hpos | ⟨t, ht, hst⟩
      · exact ⟨c, by simp, hpos⟩
      · obtain ⟨d, hd, htd⟩ := ih ht
        exact ⟨d, List.mem_cons_of_mem c hd, by rw [hst, htd]⟩

/-- Of changes in order, the shift of the first comes first. -/
theorem exists_collect_eq_cons {c : Shift} {l : List Shift}
    (h : ∀ d ∈ l, c.position ≤ d.position) :
    ∃ n more, collect (c :: l) = ⟨c.position, n⟩ :: more := by
  refine exists_record_eq_cons c.change fun s hs => ?_
  obtain ⟨d, hd, hpos⟩ := position_of_mem_collect hs
  rw [hpos]
  exact h d hd

/-- **Along a sorted order the loop may as well add up first.** -/
theorem Stand.run_collect {needed : Int} {l : List Shift}
    (h : l.Pairwise fun a b => a.position ≤ b.position) (w : Stand) :
    w.run needed (collect l) = w.run needed l := by
  induction l generalizing w with
  | nil => rfl
  | cons c rest ih =>
      obtain ⟨hc, hrest⟩ := List.pairwise_cons.mp h
      cases rest with
      | nil => rfl
      | cons d tail =>
          obtain ⟨n, more, hfront⟩ := exists_collect_eq_cons (List.pairwise_cons.mp hrest).1
          have hih := ih hrest
          rw [hfront] at hih
          rw [collect_cons, hfront, Stand.run_cons_cons]
          by_cases hsame : d.position = c.position
          · rw [if_pos hsame, ← hih, Stand.run_add_cons, hsame]
            simp [record]
          · have hlt : c.position < d.position := by
              have hle := hc d (by simp)
              omega
            rw [if_neg hsame, ← hih, record, if_pos hlt, Stand.run_cons_cons, if_neg hsame]

/-! ### The loop is the walk -/

/-- Where no two changes share a position, the loop closes what the walk finds. -/
theorem Stand.closed_run {needed : Int} {l : List Shift} (h : Ascending l) (w : Stand) :
    (w.run needed l).closed = w.closed ++ stretches needed w.count w.opened l := by
  induction l generalizing w with
  | nil => simp [Stand.run, stretches]
  | cons c rest ih =>
      obtain ⟨hc, hrest⟩ := List.pairwise_cons.mp h
      rw [Stand.run_cons_last fun d hd => Nat.ne_of_gt (hc d hd), ih hrest]
      rcases Int.lt_or_le (w.count + c.change) needed with hlt | hle
      · rw [stretches_cons_closed hlt, Stand.judge_of_lt hlt, ← List.append_assoc]
        rfl
      · rw [stretches_cons_open hle, Stand.judge_of_le hle]
        rfl

variable {needed count : Int} {opened : Option Nat} {l : List Shift}

/-- A stretch that is not open yet starts at one of the shifts ahead. -/
theorem start_of_mem_stretches {b : Nat × Nat} (hb : b ∈ stretches needed count opened l) :
    b.1 ∈ opened ∨ ∃ s ∈ l, b.1 = s.position := by
  induction l generalizing count opened with
  | nil =>
      rw [stretches] at hb
      exact absurd hb List.not_mem_nil
  | cons s rest ih =>
      rcases Int.lt_or_le (count + s.change) needed with hlt | hle
      · rw [stretches_cons_closed hlt, List.mem_append] at hb
        rcases hb with hb | hb
        · obtain ⟨start, hstart, rfl⟩ := List.mem_map.mp hb
          exact Or.inl (by simpa using hstart)
        · obtain ⟨t, ht, hpos⟩ := (ih hb).resolve_left (by simp)
          exact Or.inr ⟨t, List.mem_cons_of_mem s ht, hpos⟩
      · rw [stretches_cons_open hle] at hb
        rcases ih hb with hstart | ⟨t, ht, hpos⟩
        · cases opened with
          | none => exact Or.inr ⟨s, by simp, (by simpa using hstart : s.position = b.1).symm⟩
          | some start => exact Or.inl hstart
        · exact Or.inr ⟨t, List.mem_cons_of_mem s ht, hpos⟩

theorem pairwise_stretches (h : Ascending l) :
    (stretches needed count opened l).Pairwise fun a b => a.2 < b.1 := by
  induction l generalizing count opened with
  | nil =>
      rw [stretches]
      exact List.Pairwise.nil
  | cons s rest ih =>
      obtain ⟨hs, hrest⟩ := List.pairwise_cons.mp h
      rcases Int.lt_or_le (count + s.change) needed with hlt | hle
      · rw [stretches_cons_closed hlt]
        refine List.pairwise_append.mpr ⟨?_, ih hrest, fun a ha b hb => ?_⟩
        · cases opened <;> simp
        · obtain ⟨start, -, rfl⟩ := List.mem_map.mp ha
          obtain ⟨t, ht, hpos⟩ := (start_of_mem_stretches hb).resolve_left (by simp)
          rw [hpos]
          exact hs t ht
      · rw [stretches_cons_open hle]
        exact ih hrest

/-! ### The pairs are the bounds of separate spans -/

theorem separated_stretches (hneeded : 0 < needed) (spans : Spans) :
    (stretches needed 0 none (shifts spans)).Pairwise fun a b => a.2 - 1 + 1 < b.1 := by
  refine (pairwise_stretches (ascending_shifts spans)).imp_of_mem fun {a b} ha _ hab => ?_
  have hpos := (bounds_of_mem_stretches hneeded ha).1
  omega

/-- All pairs that the walk finds become spans, just as they are. -/
theorem map_ofBounds_stretches (hneeded : 0 < needed) (spans : Spans) :
    (stretches needed 0 none (shifts spans)).map (fun b => Span.ofBounds b.1 (b.2 - 1)) =
      (heldByEnough needed spans).map Except.ok := by
  let found := (stretches needed 0 none (shifts spans)).map fun b => (b.1, b.2 - 1)
  have hseparated : (Spans.ofGaps found).Separated :=
    Spans.separated_ofGaps (List.pairwise_map.mpr (separated_stretches hneeded spans))
  have hbounds : ∀ b ∈ found, b.1 ≤ b.2 ∧ b.2 ≤ lastVersion := by
    intro b hb
    obtain ⟨a, ha, rfl⟩ := List.mem_map.mp hb
    exact (bounds_of_mem_stretches hneeded ha).2
  have hheld : heldByEnough needed spans = Spans.ofGaps found := Spans.ofList_eq_self hseparated
  rw [hheld, ← Spans.map_ofBounds hbounds, List.map_map]
  rfl

/-- Of a name the vote keeps what enough spans on the ballots hold. -/
theorem spansOf_agreed (ballots : List String) (threshold : Int) (name : String) :
    (outcome ballots threshold).agreed.spansOf name =
      heldByEnough (quorum threshold) ((accepted ballots).flatMap (·.spansOf name)) := by
  have htallied := tallied_agreed ballots threshold name
  refine Spans.eq_of_holds_iff htallied.separated (separated_heldByEnough _ _) fun v => ?_
  rw [htallied.holds_iff, holds_heldByEnough htallied.pos]

/-! ### The changes up to a version -/

/-- The changes up to position `p`. -/
def upTo (p : Nat) (l : List Shift) : List Shift := l.filter (·.position ≤ p)

/-- The changes behind position `p`. -/
def beyond (p : Nat) (l : List Shift) : List Shift := l.filter (p < ·.position)

theorem total_upTo (p : Nat) (l : List Shift) : total (upTo p l) = level l p := by
  induction l with
  | nil => rfl
  | cons c rest ih =>
      rw [upTo, List.filter_cons, level_cons, ← ih]
      by_cases hle : c.position ≤ p
      · rw [if_pos (decide_eq_true hle), if_pos hle, total_cons, upTo]
      · rw [if_neg (by simpa using hle), if_neg hle, upTo]

theorem upTo_append_beyond (p : Nat) {l : List Shift}
    (h : l.Pairwise fun a b => a.position ≤ b.position) : upTo p l ++ beyond p l = l := by
  induction l with
  | nil => rfl
  | cons c rest ih =>
      obtain ⟨hc, hrest⟩ := List.pairwise_cons.mp h
      by_cases hle : c.position ≤ p
      · have hnot : ¬ p < c.position := by omega
        simpa [upTo, beyond, hle, hnot] using ih hrest
      · have hbehind : ∀ d ∈ c :: rest, p < d.position := by
          intro d hd
          rcases List.mem_cons.mp hd with rfl | hd
          · omega
          · have hcd := hc d hd
            omega
        have hupTo : upTo p (c :: rest) = [] := by
          refine List.filter_eq_nil_iff.mpr fun d hd => ?_
          simpa using hbehind d hd
        have hbeyond : beyond p (c :: rest) = c :: rest := by
          refine List.filter_eq_self.mpr fun d hd => ?_
          simpa using hbehind d hd
        rw [hupTo, hbeyond, List.nil_append]

namespace InOrder

variable {spans : Spans} {order : List Shift}

theorem collect_eq (h : InOrder spans order) : collect order = shifts spans := by
  rw [shifts_eq_collect, collect_perm h.perm]

theorem total_eq (h : InOrder spans order) : total order = 0 := by
  rw [← total_collect, h.collect_eq, total_shifts]

theorem run_split (h : InOrder spans order) (w : Stand) (p : Nat) :
    (w.run needed (upTo p order)).run needed (beyond p order) = w.run needed order := by
  have hapart : ∀ a ∈ upTo p order, ∀ b ∈ beyond p order, a.position < b.position := by
    intro a ha b hb
    have hle := of_decide_eq_true (List.mem_filter.mp ha).2
    have hlt := of_decide_eq_true (List.mem_filter.mp hb).2
    omega
  rw [← Stand.run_append hapart, upTo_append_beyond p h.sorted]

/-- **Behind the changes up to a version the count is the number of spans that hold it.** -/
theorem count_upTo (h : InOrder spans order) (p : Nat) :
    (Stand.start.run needed (upTo p order)).count = spans.countP (p ∈ ·) := by
  rw [Stand.count_run, total_upTo, ← level_collect, h.collect_eq, level_shifts]
  exact Int.zero_add _

theorem closed_eq (h : InOrder spans order) :
    (Stand.start.run needed order).closed = stretches needed 0 none (shifts spans) := by
  rw [← Stand.run_collect h.sorted, h.collect_eq, Stand.closed_run (ascending_shifts spans)]
  rfl

theorem count_eq (h : InOrder spans order) : (Stand.start.run needed order).count = 0 := by
  rw [Stand.count_run, h.total_eq]
  rfl

theorem opened_eq (h : InOrder spans order) (hneeded : 0 < needed) :
    (Stand.start.run needed order).opened = none := by
  have hopened := Stand.isSome_opened_run_start hneeded order
  rw [h.count_eq] at hopened
  simpa using mt hopened.mp (by omega)

end InOrder

/-- Sorting the changes by position, and those at one position with the smaller first, is one way
to bring them in order. -/
theorem inOrder_mergeSort (spans : Spans) :
    InOrder spans ((changes spans).mergeSort fun a b =>
      a.position < b.position ∨ a.position = b.position ∧ a.change ≤ b.change) where
  perm := List.mergeSort_perm _ _
  sorted := by
    refine (List.pairwise_mergeSort ?_ ?_ (changes spans)).imp ?_
    · intro a b c hab hbc
      simp only [decide_eq_true_eq] at hab hbc ⊢
      omega
    · intro a b
      simp only [Bool.or_eq_true, decide_eq_true_eq]
      omega
    · intro a b hab
      simp only [decide_eq_true_eq] at hab
      omega

/-! ### Ballots -/

/-- **The loop is safe on all ballots.**  Behind the changes up to a version the count is the number
of ballots that list it; in the end nothing is counted and nothing open; and what the loop has
closed is what the walk finds, the bounds of separate spans, which are the ones agreed on. -/
theorem run_safe {ballots : List String} {name : String} {order : List Shift} (threshold : Int)
    (h : InOrder ((accepted ballots).flatMap (·.spansOf name)) order) :
    (∀ p, ∃ w, w = Stand.start.run (quorum threshold) (upTo p order) ∧
      w.run (quorum threshold) (beyond p order) = Stand.start.run (quorum threshold) order ∧
      w.closed <+: (Stand.start.run (quorum threshold) order).closed ∧
      w.count = (accepted ballots).countP (·.supports name p) ∧
      0 ≤ w.count ∧ w.count ≤ (accepted ballots).length ∧
      (w.opened.isSome ↔ quorum threshold ≤ w.count)) ∧
    ∃ last, last = Stand.start.run (quorum threshold) order ∧
      last.count = 0 ∧ last.opened = none ∧
      last.closed = stretches (quorum threshold) 0 none
        (shifts ((accepted ballots).flatMap (·.spansOf name))) ∧
      (∀ b ∈ last.closed, 0 < b.2 ∧ b.1 ≤ b.2 - 1 ∧ b.2 - 1 ≤ lastVersion) ∧
      (last.closed.Pairwise fun a b => a.2 - 1 + 1 < b.1) ∧
      last.closed.map (fun b => Span.ofBounds b.1 (b.2 - 1)) =
        ((outcome ballots threshold).agreed.spansOf name).map Except.ok := by
  have hpos := quorum_pos threshold
  refine ⟨fun p => ⟨_, rfl, h.run_split _ p, ?_⟩, _, rfl, h.count_eq, h.opened_eq hpos, ?_⟩
  · have hgrows : (Stand.start.run (quorum threshold) (upTo p order)).closed <+:
        (Stand.start.run (quorum threshold) order).closed := by
      rw [← h.run_split _ p]
      exact Stand.closed_prefix_run _ _
    have hcount : (Stand.start.run (quorum threshold) (upTo p order)).count =
        (accepted ballots).countP (·.supports name p) := by
      rw [h.count_upTo, countP_spansOf (wellFormed_of_mem_accepted ballots)]
    have hle := List.countP_le_length (p := fun c : Capabilities => c.supports name p)
      (l := accepted ballots)
    refine ⟨hgrows, hcount, by omega, by omega, ?_⟩
    exact Stand.isSome_opened_run_start hpos _
  · rw [h.closed_eq, spansOf_agreed]
    refine ⟨rfl, fun b hb => bounds_of_mem_stretches hpos hb, ?_, ?_⟩
    · exact separated_stretches hpos _
    · exact map_ofBounds_stretches hpos _

/-- At position 4 two changes cancel, the lesser first, and the stretch goes on.  The last two
stand behind the last version. -/
theorem run_safe_cancelling :
    ∃ ballots order,
      ballots = ["Link=1-3,4294967295", "Link=1-6", "Link", "Link=4-6,4294967290-4294967295"] ∧
      order = [⟨1, 1⟩, ⟨1, 1⟩, ⟨4, -1⟩, ⟨4, 1⟩, ⟨7, -1⟩, ⟨7, -1⟩, ⟨4294967290, 1⟩,
        ⟨4294967295, 1⟩, ⟨4294967296, -1⟩, ⟨4294967296, -1⟩] ∧
      InOrder ((accepted ballots).flatMap (·.spansOf "Link")) order ∧
      (Stand.start.run (quorum 2) order).closed = [(1, 7), (4294967295, 4294967296)] ∧
      (∀ p, (Stand.start.run (quorum 2) (upTo p order)).count =
        (accepted ballots).countP (·.supports "Link" p)) ∧
      (Stand.start.run (quorum 2) order).opened = none ∧
      (Stand.start.run (quorum 2) order).closed.map (fun b => Span.ofBounds b.1 (b.2 - 1)) =
        ((outcome ballots 2).agreed.spansOf "Link").map Except.ok := by
  have horder : InOrder ((accepted ["Link=1-3,4294967295", "Link=1-6", "Link",
      "Link=4-6,4294967290-4294967295"]).flatMap (·.spansOf "Link"))
      [⟨1, 1⟩, ⟨1, 1⟩, ⟨4, -1⟩, ⟨4, 1⟩, ⟨7, -1⟩, ⟨7, -1⟩, ⟨4294967290, 1⟩,
        ⟨4294967295, 1⟩, ⟨4294967296, -1⟩, ⟨4294967296, -1⟩] :=
    ⟨by decide +kernel, by decide +kernel⟩
  obtain ⟨hcounts, last, rfl, -, hopened, -, -, -, hspans⟩ := run_safe 2 horder
  refine ⟨_, _, rfl, rfl, horder, by decide +kernel, fun p => ?_, hopened, hspans⟩
  obtain ⟨w, rfl, -, -, hcount, -⟩ := hcounts p
  exact hcount

end Subprotocol.Consensus

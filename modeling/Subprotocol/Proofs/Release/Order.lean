/-
The order of age is total, and it is the order that the parts of a release suggest.

The comparison is a chain, and so is the argument.  Every link compares one part of the two
releases in a total order that the part has already: a number, the place of a status class, the
text of a tag.  A chain of such links is total again, and it says equal only where none of them
could tell the two apart.  The parts leave nothing of a release out, so the two are then one.

`Older` says the same without a comparison.  The status classes stand in a row, each next to the
one before it, and tags are compared within a class only.  Since releases that come out level are
equal, there is one way to put releases in order, in whatever order they come.
-/
import Mathlib.Logic.Relation
import Subprotocol.Release.Reader

namespace Subprotocol.Release

/-! ### Which status comes first -/

namespace Status

/-- The class of the second status is the one that follows the class of the first. -/
inductive Next : Status → Status → Prop
  | beta {s t : String} : Next (.alpha s) (.beta t)
  | candidate {s t : String} : Next (.beta s) (.candidate t)
  | other {s t : String} : Next (.candidate s) (.other t)
  | final {s : String} : Next (.other s) .final

/-- The first status comes before the second, by their classes or by their tags. -/
inductive Before : Status → Status → Prop
  | ofClass {a b : Status} (h : Relation.TransGen Next a b) : Before a b
  | alpha {s t : String} (h : s < t) : Before (.alpha s) (.alpha t)
  | beta {s t : String} (h : s < t) : Before (.beta s) (.beta t)
  | candidate {s t : String} (h : s < t) : Before (.candidate s) (.candidate t)
  | other {s t : String} (h : s < t) : Before (.other s) (.other t)

variable {a b : Status}

theorem next_iff : Next a b ↔ b.rank = a.rank + 1 := by
  constructor
  · intro h
    cases h <;> rfl
  · intro h
    cases a <;> cases b <;> simp [rank] at h
    · exact .beta
    · exact .candidate
    · exact .other
    · exact .final

private theorem exists_next (h : 0 < b.rank) : ∃ a, Next a b := by
  cases b with
  | alpha t => exact absurd h (Nat.lt_irrefl 0)
  | beta t => exact ⟨.alpha "", .beta⟩
  | candidate t => exact ⟨.beta "", .candidate⟩
  | other t => exact ⟨.candidate "", .other⟩
  | final => exact ⟨.other "", .final⟩

/-- The places of the classes are those in the row. -/
theorem transGen_next_iff : Relation.TransGen Next a b ↔ a.rank < b.rank := by
  constructor
  · intro h
    induction h with
    | single h =>
        have := next_iff.mp h
        omega
    | tail _ h ih =>
        have := next_iff.mp h
        omega
  · intro h
    induction hn : b.rank generalizing b with
    | zero => omega
    | succ n ih =>
        obtain ⟨c, hc⟩ := exists_next (Nat.zero_lt_of_lt h)
        have hrank := next_iff.mp hc
        by_cases hac : a.rank = c.rank
        · exact .single (next_iff.mpr (by omega))
        · exact .tail (ih (by omega) (by omega)) hc

theorem before_iff :
    Before a b ↔ a.rank < b.rank ∨ a.rank = b.rank ∧ a.tag?.getD "" < b.tag?.getD "" := by
  constructor
  · intro h
    cases h with
    | ofClass h => exact Or.inl (transGen_next_iff.mp h)
    | alpha h => exact Or.inr ⟨rfl, h⟩
    | beta h => exact Or.inr ⟨rfl, h⟩
    | candidate h => exact Or.inr ⟨rfl, h⟩
    | other h => exact Or.inr ⟨rfl, h⟩
  · intro h
    rcases h with hclass | ⟨hclass, htag⟩
    · exact .ofClass (transGen_next_iff.mpr hclass)
    · cases a <;> cases b <;> simp [rank] at hclass
      · exact .alpha htag
      · exact .beta htag
      · exact .candidate htag
      · exact .other htag
      · exact absurd htag (String.lt_irrefl "")

theorem compare_eq_lt_iff : compare a b = .lt ↔ Before a b := by
  have htag : compare (a.tag?.getD "") (b.tag?.getD "") = .lt ↔ a.tag?.getD "" < b.tag?.getD "" :=
    compareOfLessAndEq_eq_lt
  show (compare a.rank b.rank).then (compare (a.tag?.getD "") (b.tag?.getD "")) = .lt ↔ _
  rw [before_iff, Ordering.then_eq_lt, Nat.compare_eq_lt, Nat.compare_eq_eq, htag]

instance : Std.TransOrd Status :=
  inferInstanceAs (Std.TransCmp (compareLex (compareOn rank) (compareOn (·.tag?.getD ""))))

/-- A status is its class and its tag. -/
instance : Std.LawfulEqOrd Status where
  eq_of_compare {a b} h := by
    obtain ⟨hclass, htag⟩ := Ordering.then_eq_eq.mp h
    rw [Nat.compare_eq_eq] at hclass
    rw [Std.compare_eq_iff_eq] at htag
    cases a <;> cases b <;> simp [rank] at hclass <;> simp_all [tag?]

end Status

/-! ### Which release comes first -/

/-- `a` came out before `b`: its numbers are smaller, the earlier ones weighing more, or its status
comes first among releases with the same numbers. -/
inductive Older : Release → Release → Prop
  | numbers {a b : Release} (h : a.numbers < b.numbers) : Older a b
  | status {a b : Release} (same : a.numbers = b.numbers) (h : a.status.Before b.status) :
      Older a b

variable {a b c : Release}

theorem older_iff :
    Older a b ↔ a.numbers < b.numbers ∨ a.numbers = b.numbers ∧ a.status.Before b.status := by
  constructor
  · intro h
    cases h with
    | numbers h => exact Or.inl h
    | status same h => exact Or.inr ⟨same, h⟩
  · intro h
    rcases h with hnumbers | ⟨hnumbers, hstatus⟩
    · exact .numbers hnumbers
    · exact .status hnumbers hstatus

private theorem compare_numbers_eq_lt_iff {l m : List Nat} : compare l m = .lt ↔ l < m := by
  induction l generalizing m with
  | nil => cases m <;> simp
  | cons x l ih =>
      cases m with
      | nil => simp
      | cons y m =>
          rw [List.compare_cons_cons, Ordering.then_eq_lt, Nat.compare_eq_lt, Nat.compare_eq_eq, ih,
            List.cons_lt_cons_iff]

/-- The chain of comparisons has two parts, the numbers and the status. -/
theorem compare_eq_then :
    compare a b = (compare a.numbers b.numbers).then (compare a.status b.status) := by
  show Ordering.then _ (Ordering.then _ (Ordering.then _ (Ordering.then _ _))) = _
  simp only [numbers, List.compare_cons_cons, List.compare_nil_nil, Ordering.then_assoc,
    Ordering.then_eq]

/-- **The comparison says which release is older.** -/
theorem compare_eq_lt_iff : compare a b = .lt ↔ a.Older b := by
  rw [compare_eq_then, Ordering.then_eq_lt, compare_numbers_eq_lt_iff, Std.compare_eq_iff_eq,
    Status.compare_eq_lt_iff, older_iff]

instance (a b : Release) : Decidable (a.Older b) := decidable_of_iff _ compare_eq_lt_iff

instance : Std.TransOrd Release :=
  inferInstanceAs (Std.TransCmp (compareLex (compareOn major) (compareLex (compareOn minor)
    (compareLex (compareOn micro) (compareLex (compareOn patch) (compareOn status))))))

/-- A release is its numbers and its status. -/
instance : Std.LawfulEqOrd Release where
  eq_of_compare {a b} h := by
    rw [compare_eq_then, Ordering.then_eq_eq, Std.compare_eq_iff_eq, Std.compare_eq_iff_eq] at h
    obtain ⟨major, minor, micro, patch, status⟩ := a
    obtain ⟨major', minor', micro', patch', status'⟩ := b
    simpa [numbers, and_assoc] using h

/-! ### Newer or the same -/

theorem atLeast_iff : a.AtLeast b ↔ ¬ a.Older b := by
  rw [← compare_eq_lt_iff]
  exact Ordering.isGE_iff_ne_lt

theorem atLeast_iff_isLE : a.AtLeast b ↔ (compare b a).isLE = true :=
  Std.OrientedCmp.isGE_iff_isLE

theorem Older.atLeast (h : a.Older b) : b.AtLeast a := by
  rw [atLeast_iff_isLE, compare_eq_lt_iff.mpr h]
  rfl

theorem AtLeast.refl (a : Release) : a.AtLeast a := by
  show (compare a a).isGE = true
  rw [Std.compare_self]
  rfl

theorem AtLeast.trans (hab : a.AtLeast b) (hbc : b.AtLeast c) : a.AtLeast c :=
  Std.TransCmp.isGE_trans hab hbc

theorem AtLeast.antisymm (hab : a.AtLeast b) (hba : b.AtLeast a) : a = b :=
  Std.LawfulEqCmp.eq_of_compare (Std.OrientedCmp.isGE_antisymm hab hba)

theorem AtLeast.total (a b : Release) : a.AtLeast b ∨ b.AtLeast a := by
  rw [atLeast_iff_isLE (a := b)]
  unfold AtLeast
  cases compare a b <;> simp

/-! ### Putting releases in order -/

/-- `l` holds the releases among `names`, from the oldest to the newest. -/
structure Arranges (names : List String) (l : List Release) : Prop where
  perm : l.Perm (names.filterMap fun s => (parse s).toOption)
  ascending : l.Pairwise fun a b => b.AtLeast a

variable {names names' : List String} {l : List Release}

theorem arranges_sorted (names : List String) : Arranges names (sorted names) := by
  have htotal (a b : Release) : ((compare a b).isLE || (compare b a).isLE) = true := by
    rw [Bool.or_eq_true]
    exact (AtLeast.total b a).imp atLeast_iff_isLE.mp atLeast_iff_isLE.mp
  have hascending : (sorted names).Pairwise fun a b => (compare a b).isLE = true :=
    List.pairwise_mergeSort (fun _ _ _ => Std.TransCmp.isLE_trans) htotal _
  exact ⟨List.mergeSort_perm _ _, hascending.imp atLeast_iff_isLE.mpr⟩

/-- There is one way to put releases in order. -/
theorem arranges_iff : Arranges names l ↔ l = sorted names := by
  constructor
  · intro h
    have hsorted := arranges_sorted names
    refine List.Perm.eq_of_pairwise (fun a b _ _ hba hab => ?_) h.ascending hsorted.ascending
      (h.perm.trans hsorted.perm.symm)
    exact hab.antisymm hba
  · intro h
    rw [h]
    exact arranges_sorted names

theorem sorted_eq_of_perm (h : names.Perm names') : sorted names = sorted names' := by
  obtain ⟨hperm, hascending⟩ := arranges_sorted names
  exact arranges_iff.mp ⟨hperm.trans (h.filterMap _), hascending⟩

/-- **Age is a total order**, in which only equals are level and numbers come before the status.
So a row of names has one order by age, and the written forms are the same for any row of the same
names. -/
theorem age_total_order (a b c : Release) :
    (a.AtLeast b ∨ b.AtLeast a) ∧
    (a.AtLeast b → b.AtLeast a → a = b) ∧
    (a.AtLeast b → b.AtLeast c → a.AtLeast c) ∧
    compare a b = (compare b a).swap ∧
    (compare a b = .eq ↔ a = b) ∧
    (compare a b = .lt ↔ a.Older b) ∧
    (a.AtLeast b ↔ ¬ a.Older b) ∧
    (∀ names l, Arranges names l ↔ l = sorted names) ∧
    ∀ names names', names.Perm names' → (sorted names).map text = (sorted names').map text := by
  refine ⟨AtLeast.total a b, AtLeast.antisymm, AtLeast.trans, Std.OrientedCmp.eq_swap,
    Std.compare_eq_iff_eq, compare_eq_lt_iff, atLeast_iff, fun _ _ => arranges_iff, ?_⟩
  intro names names' h
  rw [sorted_eq_of_perm h]

/-- A release after its tagged ones, of which the one with the tag of no class comes last, in two
orders and among other texts. -/
theorem age_total_order_tagged :
    (⟨0, 2, 9, 3, .final⟩ : Release).AtLeast ⟨0, 2, 9, 3, .other "aaa"⟩ ∧
    (⟨0, 2, 9, 3, .other "aaa"⟩ : Release).AtLeast ⟨0, 2, 9, 3, .alpha "alpha-dev"⟩ ∧
    (⟨0, 2, 9, 3, .final⟩ : Release).AtLeast ⟨0, 2, 9, 3, .alpha "alpha-dev"⟩ ∧
    sorted ["0.2.9.3", "Tor 0.2.9.3-alpha-dev (git-1f)", "Tor", "0.02.9.3-aaa"] =
      [⟨0, 2, 9, 3, .alpha "alpha-dev"⟩, ⟨0, 2, 9, 3, .other "aaa"⟩, ⟨0, 2, 9, 3, .final⟩] ∧
    (sorted ["Tor 0.2.9.3-alpha-dev (git-1f)", "0.2.9.3", "Tor", "0.02.9.3-aaa"]).map text =
      ["0.2.9.3-alpha-dev", "0.2.9.3-aaa", "0.2.9.3"] := by
  obtain ⟨-, -, htrans, -, -, -, -, horder, hperm⟩ :=
    age_total_order ⟨0, 2, 9, 3, .final⟩ ⟨0, 2, 9, 3, .other "aaa"⟩ ⟨0, 2, 9, 3, .alpha "alpha-dev"⟩
  have hsorted := (horder ["0.2.9.3", "Tor 0.2.9.3-alpha-dev (git-1f)", "Tor", "0.02.9.3-aaa"]
    [⟨0, 2, 9, 3, .alpha "alpha-dev"⟩, ⟨0, 2, 9, 3, .other "aaa"⟩, ⟨0, 2, 9, 3, .final⟩]).mp
    ⟨by decide +kernel, by decide +kernel⟩
  refine ⟨by decide, by decide, htrans (by decide) (by decide), hsorted.symm, ?_⟩
  rw [hperm _ _ (List.Perm.swap _ _ _), ← hsorted]
  decide +kernel

end Subprotocol.Release

/-
Adding up the sizes of the spans counts the versions.

A sum of sizes counts a version once for every span that holds it.  The spans of an entry are
separate, so that is once, and it stays so whatever is done to the entry: what an insertion or a
removal leaves is separate again.  The count is then a matter of the versions alone.  An
insertion adds those that were missing, a removal takes those that were held, and no entry can
list more versions than there are.

There are 2^32 versions, one more than a word of 32 bits can say.  A word of 64 bits has room to
spare at every step of the sum, and `countInWords` is the sum with each step checked.
-/
import Mathlib.Data.Nat.Count
import Mathlib.Order.Interval.Finset.Nat
import Subprotocol.Proofs.Entry.Insertion
import Subprotocol.Proofs.Entry.Removal

namespace Subprotocol

/-- What has one of two properties that exclude each other is counted by counting both. -/
theorem count_eq_add {p q r : Nat → Prop} [DecidablePred p] [DecidablePred q] [DecidablePred r]
    (hsplit : ∀ v, p v ↔ q v ∨ r v) (hnot : ∀ v, q v → ¬ r v) (n : Nat) :
    Nat.count p n = Nat.count q n + Nat.count r n := by
  induction n with
  | zero => simp
  | succ n ih =>
      rw [Nat.count_succ, Nat.count_succ, Nat.count_succ, ih]
      have hn := hsplit n
      by_cases hq : q n
      · have hr := hnot n hq
        simp only [hn, hq, hr, or_false, if_true, if_false]
        omega
      · simp only [hn, hq, false_or, if_false]
        omega

/-! ### Spans -/

theorem Span.count_mem (s : Span) : Nat.count (· ∈ s) (lastVersion + 1) = s.size := by
  have hordered := s.ordered
  have hversions : (Finset.range (lastVersion + 1)).filter (· ∈ s) = Finset.Icc s.low s.high := by
    ext v
    have hbounded := s.bounded
    rw [Finset.mem_filter, Finset.mem_range, Finset.mem_Icc, Span.mem_iff]
    omega
  rw [Nat.count_eq_card_filter_range, hversions, Nat.card_Icc, Span.size]
  omega

namespace Spans

@[simp] theorem count_cons (s : Span) (l : Spans) : count (s :: l) = s.size + count l := rfl

/-- The sizes of separate spans add up to the number of versions that they hold. -/
theorem count_holds {l : Spans} (hl : l.Separated) :
    Nat.count l.Holds (lastVersion + 1) = l.count := by
  induction l with
  | nil => exact Nat.count_iff_forall_not.mpr fun v _ => not_holds_nil v
  | cons s rest ih =>
      have hnot : ∀ v, v ∈ s → ¬ Holds rest v := by
        intro v hs hrest
        have hle := (Span.mem_iff.mp hs).2
        have hgap := lt_of_holds_of_separated hl hrest
        omega
      rw [count_eq_add (fun _ => holds_cons) hnot, Span.count_mem, ih hl.tail, count_cons]

theorem count_le {l : Spans} (hl : l.Separated) : l.count ≤ 2 ^ 32 := by
  have hversions : 2 ^ 32 = lastVersion + 1 := rfl
  rw [← count_holds hl, hversions]
  exact Nat.count_le _

end Spans

/-! ### Counting in words of 64 bits -/

/-- The number `n`, if a word has room for it. -/
def inWord (n : Nat) : Option Nat := if n < 2 ^ 64 then some n else none

/-- The size of the span, if the difference is no less than zero and the sum fits. -/
def Span.sizeInWords (s : Span) : Option Nat :=
  if s.low ≤ s.high then inWord (s.high - s.low + 1) else none

/-- The sizes added up one after the other, if each sum fits. -/
def Spans.countInWords (l : Spans) : Option Nat :=
  l.foldlM (fun n s => s.sizeInWords.bind fun size => inWord (n + size)) 0

theorem inWord_of_lt {n : Nat} (h : n < 2 ^ 64) : inWord n = some n := if_pos h

theorem Span.sizeInWords_eq (s : Span) : s.sizeInWords = some s.size := by
  have hbounded : s.high ≤ 4294967295 := s.bounded
  rw [Span.sizeInWords, if_pos s.ordered]
  exact inWord_of_lt (by omega)

/-- If the whole sum fits, then so does each sum on the way. -/
theorem Spans.foldlM_sizeInWords {l : Spans} {n : Nat} (h : n + l.count < 2 ^ 64) :
    l.foldlM (fun n s => s.sizeInWords.bind fun size => inWord (n + size)) n =
      some (n + l.count) := by
  induction l generalizing n with
  | nil => rfl
  | cons s rest ih =>
      rw [Spans.count_cons] at h ⊢
      have hstep : (s.sizeInWords.bind fun size => inWord (n + size)) = some (n + s.size) := by
        rw [s.sizeInWords_eq]
        exact inWord_of_lt (by omega)
      rw [List.foldlM_cons, hstep, ← Nat.add_assoc]
      exact ih (by omega)

/-! ### Entries -/

namespace Entry

variable {e : Entry}

theorem WellFormed.count_supports (he : e.WellFormed) :
    Nat.count (fun v => e.supports v = true) (lastVersion + 1) = e.count := by
  simp only [he.supports_iff_holds]
  exact Spans.count_holds he.separated

theorem WellFormed.countInWords (he : e.WellFormed) : e.spans.countInWords = some e.count := by
  have hle := Spans.count_le he.separated
  have hsum := Spans.foldlM_sizeInWords (l := e.spans) (n := 0) (by omega)
  rwa [Nat.zero_add] at hsum

/-- What a removal leaves and what the covers held are together what was there. -/
theorem WellFormed.count_remove (he : e.WellFormed) {covers : Spans} (hcovers : covers.Ascending) :
    e.count = (e.remove covers).count +
      Nat.count (fun v => e.supports v = true ∧ covers.Holds v) (lastVersion + 1) := by
  have hleft : (e.remove covers).WellFormed := he.apply (.remove covers)
  have hremove : ∀ v, (e.remove covers).spans.Holds v ↔ e.spans.Holds v ∧ ¬ covers.Holds v :=
    fun _ => Spans.holds_remove hcovers
  rw [← he.count_supports, ← hleft.count_supports]
  simp only [he.supports_iff_holds, hleft.supports_iff_holds]
  refine count_eq_add (fun v => ?_) (fun v hv => ?_) _
  · rw [hremove, ← and_or_left, and_iff_left (em' _)]
  · exact fun hheld => ((hremove v).mp hv).2 hheld.2

/-- An insertion counts what the span holds and was missing. -/
theorem WellFormed.count_insert (he : e.WellFormed) (s : Span) :
    (e.insert s).count =
      e.count + Nat.count (fun v => v ∈ s ∧ ¬ e.supports v = true) (lastVersion + 1) := by
  have hadded : (e.insert s).WellFormed := he.apply (.insert s)
  rw [← he.count_supports, ← hadded.count_supports]
  refine count_eq_add (fun v => ?_) (fun v hv => ?_) _
  · rw [he.supports_insert, or_and_left, and_iff_left (em _)]
  · exact fun hmissing => hmissing.2 hv

/-- **Adding up the sizes of the spans counts the versions.**  An entry counts each version that it
supports, at most all of them, and no step of the sum leaves a word of 64 bits.  Ascending covers
take what they hold off the count, and a span adds what was missing. -/
theorem count_exact (he : e.Reachable) :
    e.count = Nat.count (fun v => e.supports v = true) (lastVersion + 1) ∧
    e.count ≤ 2 ^ 32 ∧
    e.spans.countInWords = some e.count ∧
    (∀ covers : Spans, covers.Ascending →
      e.count = (e.remove covers).count +
        Nat.count (fun v => e.supports v = true ∧ covers.Holds v) (lastVersion + 1)) ∧
    ∀ s : Span, (e.insert s).count =
      e.count + Nat.count (fun v => v ∈ s ∧ ¬ e.supports v = true) (lastVersion + 1) := by
  have hwf := he.wellFormed
  refine ⟨hwf.count_supports.symm, Spans.count_le hwf.separated, hwf.countInWords, ?_, ?_⟩
  · intro covers hcovers
    exact hwf.count_remove hcovers
  · intro s
    exact hwf.count_insert s

/-- An entry that lists nearly all versions, with covers that overlap and reach its last one, and
a span that fills the gap, after which the count no longer fits into 32 bits. -/
theorem count_exact_of_all_versions :
    ∃ (e : Entry) (covers : Spans) (s : Span), Entry.parse "Link=0,5-4294967295" = .ok e ∧
      covers = [⟨3, 7, by decide, by decide⟩, ⟨6, 9, by decide, by decide⟩,
        ⟨4294967295, 4294967295, by decide, by decide⟩] ∧
      s = ⟨0, 4294967295, by decide, by decide⟩ ∧
      Nat.count (fun v => e.supports v = true) (lastVersion + 1) = 4294967292 ∧
      e.spans.countInWords = some 4294967292 ∧
      (e.remove covers).count = 4294967286 ∧
      Nat.count (fun v => e.supports v = true ∧ covers.Holds v) (lastVersion + 1) = 6 ∧
      (e.insert s).count = 2 ^ 32 ∧
      Nat.count (fun v => v ∈ s ∧ ¬ e.supports v = true) (lastVersion + 1) = 4 := by
  let e : Entry :=
    ⟨"Link", [⟨0, 0, by decide, by decide⟩, ⟨5, 4294967295, by decide, by decide⟩]⟩
  let covers : Spans := [⟨3, 7, by decide, by decide⟩, ⟨6, 9, by decide, by decide⟩,
    ⟨4294967295, 4294967295, by decide, by decide⟩]
  let s : Span := ⟨0, 4294967295, by decide, by decide⟩
  have he : Entry.parse "Link=0,5-4294967295" = .ok e := by decide +kernel
  have hascending : covers.Ascending := by
    show covers.Pairwise fun a b => a.low ≤ b.low
    decide
  obtain ⟨hcount, -, hwords, hremove, hinsert⟩ := count_exact (.parse he)
  have htaken := hremove covers hascending
  have hadded := hinsert s
  have hlisted : e.count = 4294967292 := by decide +kernel
  have hleft : (e.remove covers).count = 4294967286 := by decide +kernel
  have hfull : (e.insert s).count = 2 ^ 32 := by decide +kernel
  rw [hlisted] at hcount hwords htaken hadded
  rw [hleft] at htaken
  rw [hfull] at hadded
  exact ⟨e, covers, s, he, rfl, rfl, hcount.symm, hwords, hleft, by omega, hfull, by omega⟩

end Entry

end Subprotocol

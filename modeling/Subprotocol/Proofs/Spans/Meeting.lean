/-
Spans meet exactly when their hull holds nothing but what they hold.

A hull holds what the two spans hold and whatever lies between them.  Nothing lies between
spans that meet.  If two spans do not meet, one of them lies clear below the other, and the
version right behind its end is in the hull and in neither span.

What the insertion of a span relies on is that a hull makes no new contacts and breaks none: a
third span meets the hull of spans that meet exactly when it meets one of the two.  The loop
asks each span whether it meets what the inserted one has grown to.  What it grew by was taken
from separate spans, and those do not meet the span in question, so the answer is the one that
the inserted span would have got by itself.  It takes in the spans that it meets, and no others.

The version behind the last one is 2^32, which a word of 32 bits cannot say.  `meetsInWords` is
the comparison in words of 64 bits, where the sum always fits.
-/
import Subprotocol.Proofs.Entry.Counting

namespace Subprotocol

namespace Span

variable {a b : Span}

/-! ### The comparison in words of 64 bits -/

/-- Whether `second` starts no later than right behind `first`, if the sum fits. -/
def reachesInWords (first second : Span) : Option Bool :=
  (inWord (first.high + 1)).map fun next => decide (second.low ≤ next)

/-- Whether the spans meet, asked of the one that starts first. -/
def meetsInWords (a b : Span) : Option Bool :=
  if a.low ≤ b.low then a.reachesInWords b else b.reachesInWords a

theorem reachesInWords_eq (first second : Span) :
    first.reachesInWords second = some (decide (second.low ≤ first.high + 1)) := by
  have hbounded : first.high ≤ 4294967295 := first.bounded
  have hsum : inWord (first.high + 1) = some (first.high + 1) := inWord_of_lt (by omega)
  rw [reachesInWords, hsum, Option.map_some]

theorem meetsInWords_eq (a b : Span) : a.meetsInWords b = some (decide (a.Meets b)) := by
  by_cases h : a.low ≤ b.low
  · rw [meetsInWords, if_pos h, reachesInWords_eq]
    simp only [meets_iff_of_low_le h]
  · rw [meetsInWords, if_neg h, reachesInWords_eq]
    simp only [meets_comm a b, meets_iff_of_low_le (Nat.le_of_not_le h)]

/-! ### The hull of two spans -/

/-- The bounds of a hull are in order and fit. -/
theorem ofBounds_hull (a b : Span) :
    ofBounds (min a.low b.low) (max a.high b.high) = .ok (a.hull b) :=
  ofBounds_low_high (a.hull b)

/-- The hull of spans that do not meet holds the version behind the lower one. -/
theorem exists_mem_hull_of_not_meets (h : ¬ a.Meets b) :
    ∃ v, v ≤ lastVersion ∧ v ∈ a.hull b ∧ v ∉ a ∧ v ∉ b := by
  have ha := a.ordered
  have hb := b.ordered
  have habounded := a.bounded
  have hbbounded := b.bounded
  simp only [mem_iff, low_hull, high_hull]
  rcases not_meets_iff.mp h with hclear | hclear
  · exact ⟨a.high + 1, by omega⟩
  · exact ⟨b.high + 1, by omega⟩

theorem meets_iff_mem_hull (a b : Span) :
    a.Meets b ↔ ∀ v, v ≤ lastVersion → (v ∈ a.hull b ↔ v ∈ a ∨ v ∈ b) := by
  constructor
  · intro h v _
    exact mem_hull_iff h
  · intro hexact
    by_contra h
    obtain ⟨v, hv, hhull, ha, hb⟩ := exists_mem_hull_of_not_meets h
    rcases (hexact v hv).mp hhull with hmem | hmem
    · exact ha hmem
    · exact hb hmem

/-- A hull makes no new contacts and breaks none. -/
theorem meets_hull_iff (h : a.Meets b) (c : Span) :
    c.Meets (a.hull b) ↔ c.Meets a ∨ c.Meets b := by
  have ha := a.ordered
  have hb := b.ordered
  have hc := c.ordered
  simp only [Meets, low_hull, high_hull] at h ⊢
  omega

/-- **Spans meet exactly when their hull is exact.**  It makes no difference which of the two is
asked, and the comparison fits into words of 64 bits.  The hull is a span in any case, it holds
no other versions than the two hold if and only if they meet, and in that case it meets what one
of them meets. -/
theorem meets_exact (a b : Span) :
    (a.Meets b ↔ b.Meets a) ∧
    a.meetsInWords b = some (decide (a.Meets b)) ∧
    (a.Meets b ↔ ∀ v, v ≤ lastVersion → (v ∈ a.hull b ↔ v ∈ a ∨ v ∈ b)) ∧
    min a.low b.low ≤ max a.high b.high ∧
    ofBounds (min a.low b.low) (max a.high b.high) = .ok (a.hull b) ∧
    (a.Meets b → ∀ c : Span, c.Meets (a.hull b) ↔ c.Meets a ∨ c.Meets b) := by
  refine ⟨meets_comm a b, meetsInWords_eq a b, meets_iff_mem_hull a b, (a.hull b).ordered,
    ofBounds_hull a b, ?_⟩
  intro h c
  exact meets_hull_iff h c

/-- A span that ends with the last version, so that the version behind it does not fit into 32
bits, with a single version inside it and a span side by side with it. -/
theorem meets_exact_at_the_top :
    ∃ a b c : Span, a = ⟨4294967295, 4294967295, by decide, by decide⟩ ∧
      b = ⟨5, 4294967295, by decide, by decide⟩ ∧ c = ⟨3, 4, by decide, by decide⟩ ∧
      a.Meets b ∧ b.Meets a ∧ a.meetsInWords b = some true ∧
      (∀ v, v ≤ lastVersion → (v ∈ a.hull b ↔ v ∈ a ∨ v ∈ b)) ∧
      ofBounds 5 4294967295 = .ok (a.hull b) ∧
      ¬ c.Meets a ∧ c.Meets b ∧ c.Meets (a.hull b) := by
  let a : Span := ⟨4294967295, 4294967295, by decide, by decide⟩
  let b : Span := ⟨5, 4294967295, by decide, by decide⟩
  let c : Span := ⟨3, 4, by decide, by decide⟩
  have hab : a.Meets b := by decide
  have hca : ¬ c.Meets a := by decide
  have hcb : c.Meets b := by decide
  obtain ⟨hcomm, hwords, hexact, -, hbounds, hcontact⟩ := meets_exact a b
  rw [decide_eq_true hab] at hwords
  exact ⟨a, b, c, rfl, rfl, rfl, hab, hcomm.mp hab, hwords, hexact.mp hab, hbounds, hca, hcb,
    (hcontact hab c).mpr (.inr hcb)⟩

end Span

namespace Spans

variable {s r : Span} {l : Spans}

/-! ### What an insertion takes in -/

/-- What a span takes in from separate spans brings it no nearer to those behind. -/
theorem Separated.meets_hull_iff (hl : Separated (r :: l)) (h : s.Meets r) {x : Span}
    (hx : x ∈ l) : (s.hull r).Meets x ↔ s.Meets x := by
  have hapart : ¬ x.Meets r := Span.not_meets_iff.mpr (.inr (hl.gap x hx))
  rw [Span.meets_comm, Span.meets_hull_iff h, or_iff_left hapart, Span.meets_comm]

/-- The loop joins the span with those that it meets, and the rest lie clear above. -/
theorem Separated.absorb_eq (hl : l.Separated) (hs : ∀ r ∈ l, s.low ≤ r.high + 1) :
    absorb s l = (l.filter (s.Meets ·)).foldl Span.hull s :: l.filter (s.high + 1 < ·.low) := by
  induction l generalizing s with
  | nil => rfl
  | cons r rest ih =>
      by_cases h : s.Meets r
      · -- The span has grown by `r`, but towards the rest it stands where it stood.
        have hmeets : rest.filter ((s.hull r).Meets ·) = rest.filter (s.Meets ·) := by
          refine List.filter_congr fun x hx => ?_
          simp only [hl.meets_hull_iff h hx]
        have habove : rest.filter ((s.hull r).high + 1 < ·.low) =
            rest.filter (s.high + 1 < ·.low) := by
          refine List.filter_congr fun x hx => ?_
          have hgap := hl.gap x hx
          rw [Span.high_hull, decide_eq_decide]
          omega
        have hbehind : ∀ x ∈ rest, (s.hull r).low ≤ x.high + 1 := by
          intro x hx
          have := hs x (by simp [hx])
          rw [Span.low_hull]
          omega
        have hnear : ¬ s.high + 1 < r.low := Nat.not_lt.mpr h.2
        rw [absorb, if_pos h, ih hl.tail hbehind, hmeets, habove]
        simp [h, hnear]
      · have hclear : s.high + 1 < r.low := Span.lt_low_of_not_meets h (hs r (by simp))
        have habove : ∀ x ∈ r :: rest, s.high + 1 < x.low := hl.lt_low hclear
        have hnone : (r :: rest).filter (s.Meets ·) = [] := by
          refine List.filter_eq_nil_iff.mpr fun x hx => ?_
          simpa using Span.not_meets_iff.mpr (.inl (habove x hx))
        have hall : (r :: rest).filter (s.high + 1 < ·.low) = r :: rest :=
          List.filter_eq_self.mpr (by simpa using habove)
        rw [absorb, if_neg h, hnone, hall, List.foldl_nil]

/-- **An insertion takes in the spans that it meets, and leaves the others as they are.** -/
theorem Separated.insert_eq (hl : l.Separated) (s : Span) :
    l.insert s = l.filter (·.high + 1 < s.low) ++
      (l.filter (s.Meets ·)).foldl Span.hull s :: l.filter (s.high + 1 < ·.low) := by
  obtain ⟨n, hn⟩ := hl.exists_partedAt (p := (·.high + 1 < s.low))
    fun a b hab hb => Nat.lt_of_le_of_lt (Nat.succ_le_succ hab) hb
  have hbehind : ∀ r ∈ l.drop n, s.low ≤ r.high + 1 := fun r hr => Nat.le_of_not_lt (hn.2 r hr)
  have hmeets : l.filter (s.Meets ·) = (l.drop n).filter (s.Meets ·) := by
    refine filter_eq_filter_drop fun r hr => ?_
    exact Span.not_meets_iff.mpr (.inr (hn.1 r hr))
  have habove : l.filter (s.high + 1 < ·.low) = (l.drop n).filter (s.high + 1 < ·.low) := by
    refine filter_eq_filter_drop fun r hr => ?_
    have hbelow : r.high + 1 < s.low := hn.1 r hr
    have hr := r.ordered
    have hs := s.ordered
    omega
  have hdrop : Separated (l.drop n) := List.Pairwise.sublist (List.drop_sublist n l) hl
  rw [insert_of_partedAt hn, hdrop.absorb_eq hbehind, hn.filter_eq_take, hmeets, habove]

end Spans

end Subprotocol

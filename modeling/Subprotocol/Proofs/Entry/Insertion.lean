/-
Inserting a span is exact, and the order of insertions leaves no trace.

Both a look-up and an insertion begin with a search for a place in the spans: the look-up for
the first span that does not end below the version, the insertion for the first one that the
new span may meet.  A search by halving is at liberty to look anywhere, and finds the place
only if the spans before it pass its test and those from there on fail it.  Separate spans
are parted so, because a span that lies below one which passes the test passes it too.

Behind its place the new span grows as it takes in what it meets, and what it grows to holds
no version but its own and theirs.  So an insertion adds the versions of the span and keeps
the spans separate, and since separate spans are determined by what they hold, entries that
were brought to hold the same versions have the same spans, whatever was inserted when.
-/
import Subprotocol.Proofs.Capabilities.Reachable

namespace Subprotocol

namespace Spans

/-! ### Searching for a place -/

/-- The spans before place `n` pass the test `p`, and those from there on fail it. -/
def PartedAt (l : Spans) (p : Span → Prop) (n : Nat) : Prop :=
  (∀ s ∈ l.take n, p s) ∧ ∀ s ∈ l.drop n, ¬ p s

instance (l : Spans) (p : Span → Prop) [DecidablePred p] (n : Nat) : Decidable (l.PartedAt p n) :=
  inferInstanceAs (Decidable (_ ∧ _))

variable {s : Span} {l : Spans} {p : Span → Prop} {n v : Nat}

theorem partedAt_zero : PartedAt l p 0 ↔ ∀ s ∈ l, ¬ p s := by
  simp [PartedAt]

theorem partedAt_cons_succ : PartedAt (s :: l) p (n + 1) ↔ p s ∧ PartedAt l p n := by
  simp [PartedAt, and_assoc]

theorem PartedAt.filter_eq_take [DecidablePred p] (h : l.PartedAt p n) :
    l.filter p = l.take n := by
  have hpass : (l.take n).filter p = l.take n := List.filter_eq_self.mpr (by simpa using h.1)
  have hfail : (l.drop n).filter p = [] := List.filter_eq_nil_iff.mpr (by simpa using h.2)
  calc l.filter p = (l.take n ++ l.drop n).filter p := by rw [List.take_append_drop]
    _ = l.take n := by rw [List.filter_append, hpass, hfail, List.append_nil]

theorem filter_eq_filter_drop [DecidablePred p] (h : ∀ r ∈ l.take n, ¬ p r) :
    l.filter p = (l.drop n).filter p := by
  have hfail : (l.take n).filter p = [] := List.filter_eq_nil_iff.mpr (by simpa using h)
  calc l.filter p = (l.take n ++ l.drop n).filter p := by rw [List.take_append_drop]
    _ = (l.drop n).filter p := by rw [List.filter_append, hfail, List.nil_append]

/-- A test that is passed below wherever it is passed parts separate spans. -/
theorem Separated.exists_partedAt (hl : l.Separated)
    (hp : ∀ a b : Span, a.high ≤ b.high → p b → p a) : ∃ n, l.PartedAt p n := by
  induction l with
  | nil => exact ⟨0, partedAt_zero.mpr (by simp)⟩
  | cons s rest ih =>
      by_cases hs : p s
      · obtain ⟨n, hn⟩ := ih hl.tail
        exact ⟨n + 1, partedAt_cons_succ.mpr ⟨hs, hn⟩⟩
      · refine ⟨0, partedAt_zero.mpr ?_⟩
        intro r hr hpr
        rcases List.mem_cons.mp hr with rfl | hr
        · exact hs hpr
        · have hgap := hl.gap r hr
          have hordered := r.ordered
          exact hs (hp s r (by omega) hpr)

/-- Wherever a search for the end of the spans below `v` stops, the span there decides. -/
theorem supports_iff_of_partedAt (h : l.PartedAt (·.high < v) n) :
    l.supports v = true ↔ ∃ r, l[n]? = some r ∧ v ∈ r := by
  induction l generalizing n with
  | nil => simp [supports]
  | cons s rest ih =>
      rw [supports_cons]
      cases n with
      | zero =>
          have hs : v ≤ s.high := Nat.le_of_not_lt (partedAt_zero.mp h s (by simp))
          simp [hs]
      | succ n =>
          obtain ⟨hs, hrest⟩ := partedAt_cons_succ.mp h
          rw [if_neg (Nat.not_le.mpr hs), ih hrest, List.getElem?_cons_succ]

/-- Wherever a search for the spans that lie clear below `s` stops, `s` goes in. -/
theorem insert_of_partedAt (h : l.PartedAt (·.high + 1 < s.low) n) :
    l.insert s = l.take n ++ absorb s (l.drop n) := by
  induction l generalizing n with
  | nil => simp [insert]
  | cons r rest ih =>
      cases n with
      | zero =>
          have hr : ¬ r.high + 1 < s.low := partedAt_zero.mp h r (by simp)
          simp [insert, hr]
      | succ n =>
          obtain ⟨hr, hrest⟩ := partedAt_cons_succ.mp h
          have hcons : insert (r :: rest) s = r :: insert rest s := by simp [insert, hr]
          rw [hcons, ih hrest]
          rfl

/-! ### Many insertions -/

/-- Separate spans that come to hold the same versions come to be the same. -/
theorem insertAll_eq_of_holds_iff {l l' new new' : Spans} (hl : l.Separated) (hl' : l'.Separated)
    (h : ∀ v, v ≤ lastVersion → (l.Holds v ∨ new.Holds v ↔ l'.Holds v ∨ new'.Holds v)) :
    l.insertAll new = l'.insertAll new' := by
  refine eq_of_holds_iff (separated_insertAll hl) (separated_insertAll hl') fun v => ?_
  by_cases hv : v ≤ lastVersion
  · rw [holds_insertAll, holds_insertAll]
    exact h v hv
  · exact iff_of_false (fun hw => hv (le_lastVersion_of_holds hw))
      fun hw => hv (le_lastVersion_of_holds hw)

end Spans

namespace Entry

theorem WellFormed.supports_insert {e : Entry} (he : e.WellFormed) (s : Span) (v : Nat) :
    (e.insert s).supports v = true ↔ e.supports v = true ∨ v ∈ s := by
  have hinsert : (e.insert s).WellFormed := he.apply (.insert s)
  rw [hinsert.supports_iff_holds, he.supports_iff_holds]
  exact Spans.holds_insert

theorem applyAll_insert (e : Entry) (l : Spans) :
    e.applyAll (l.map .insert) = { e with spans := e.spans.insertAll l } := by
  induction l generalizing e with
  | nil => rfl
  | cons s rest ih => exact ih (e.insert s)

theorem ofSpans_eq_of_holds_iff {l m : Spans}
    (h : ∀ v, v ≤ lastVersion → (l.Holds v ↔ m.Holds v)) (name : String) :
    ofSpans name l = ofSpans name m := by
  have hspans : Spans.ofList l = Spans.ofList m := by
    refine Spans.insertAll_eq_of_holds_iff List.Pairwise.nil List.Pairwise.nil ?_
    intro v hv
    rw [h v hv]
  unfold ofSpans
  rw [hspans]

/-- **Inserting a span is exact.**  The name stays, the spans stay separate, and what is
supported is what was and what the span holds.  A look-up answers for the spans as a whole,
wherever its search stops, and entries that came to hold the same versions by any insertions
have the same spans. -/
theorem insert_exact {e : Entry} (he : e.Reachable) (s : Span) :
    (e.insert s).name = e.name ∧
    (e.insert s).spans.Separated ∧
    (∀ v, (e.insert s).supports v = true ↔ e.supports v = true ∨ v ∈ s) ∧
    (∀ v, e.supports v = true ↔ e.spans.Holds v) ∧
    (∀ v, (∃ n, e.spans.PartedAt (·.high < v) n) ∧
      ∀ n, e.spans.PartedAt (·.high < v) n →
        (e.supports v = true ↔ ∃ r, e.spans[n]? = some r ∧ v ∈ r)) ∧
    ((∃ n, e.spans.PartedAt (·.high + 1 < s.low) n) ∧
      ∀ n, e.spans.PartedAt (·.high + 1 < s.low) n →
        (e.insert s).spans = e.spans.take n ++ Spans.absorb s (e.spans.drop n)) ∧
    (∀ l m : Spans, (∀ v, v ≤ lastVersion → (l.Holds v ↔ m.Holds v)) →
      ∀ name, ofSpans name l = ofSpans name m) ∧
    (∀ f : Entry, f.Reachable → ∀ l m : Spans,
      (∀ v, v ≤ lastVersion →
        (e.supports v = true ∨ l.Holds v ↔ f.supports v = true ∨ m.Holds v)) →
      (e.applyAll (l.map .insert)).spans = (f.applyAll (m.map .insert)).spans) := by
  have hwf := he.wellFormed
  refine ⟨rfl, Spans.separated_insert hwf.separated, hwf.supports_insert s,
    fun v => hwf.supports_iff_holds, fun v => ⟨?_, ?_⟩, ⟨?_, ?_⟩, ?_, ?_⟩
  · exact hwf.separated.exists_partedAt fun a b hab hb => Nat.lt_of_le_of_lt hab hb
  · intro n hn
    exact Spans.supports_iff_of_partedAt hn
  · exact hwf.separated.exists_partedAt fun a b hab hb =>
      Nat.lt_of_le_of_lt (Nat.succ_le_succ hab) hb
  · intro n hn
    exact Spans.insert_of_partedAt hn
  · intro l m h name
    exact ofSpans_eq_of_holds_iff h name
  · intro f hf l m h
    simp only [hwf.supports_iff_holds, hf.wellFormed.supports_iff_holds] at h
    rw [applyAll_insert, applyAll_insert]
    exact Spans.insertAll_eq_of_holds_iff hwf.separated hf.wellFormed.separated h

/-- A span goes in behind the first one and bridges the two that follow.  It makes no difference
to another one whether it goes in before or after, nor whether that one goes in twice. -/
theorem insert_exact_bridging :
    ∃ (e : Entry) (s t : Span), Entry.parse "Link=9,4294967295,0,5" = .ok e ∧
      s = ⟨2, 8, by decide, by decide⟩ ∧ t = ⟨10, 4294967294, by decide, by decide⟩ ∧
      (e.insert s).text = "Link=0,2-9,4294967295" ∧
      (e.insert s).spans = e.spans.take 1 ++ Spans.absorb s (e.spans.drop 1) ∧
      (∀ v, (e.insert s).supports v = true ↔ e.supports v = true ∨ v ∈ s) ∧
      (e.applyAll ([s, t].map .insert)).text = "Link=0,2-4294967295" ∧
      (e.applyAll ([t, s, t].map .insert)).spans = (e.applyAll ([s, t].map .insert)).spans := by
  have he : Entry.parse "Link=9,4294967295,0,5" =
      .ok ⟨"Link", [⟨0, 0, by decide, by decide⟩, ⟨5, 5, by decide, by decide⟩,
        ⟨9, 9, by decide, by decide⟩, ⟨4294967295, 4294967295, by decide, by decide⟩]⟩ := by
    decide +kernel
  let s : Span := ⟨2, 8, by decide, by decide⟩
  let t : Span := ⟨10, 4294967294, by decide, by decide⟩
  obtain ⟨-, -, hsupports, -, -, ⟨-, hplace⟩, -, hsame⟩ := insert_exact (.parse he) s
  refine ⟨_, s, t, he, rfl, rfl, by decide +kernel, hplace 1 (by decide), hsupports,
    by decide +kernel, ?_⟩
  refine hsame _ (.parse he) [t, s, t] [s, t] ?_
  intro v _
  have hunion : Spans.Holds [t, s, t] v ↔ Spans.Holds [s, t] v := by
    simp only [Spans.holds_cons]
    rw [or_left_comm, or_self_left]
  rw [hunion]

end Entry

end Subprotocol

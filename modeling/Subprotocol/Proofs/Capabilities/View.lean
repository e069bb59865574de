/-
More of the view of capabilities.

Names, spans under a name, rebuilding and unions, each through `Lists`.  Well formed capabilities mention no
name without a version, so their names are those under which they list something.  What
is ascending and separated already comes out of a rebuilding unchanged, since there is
only one well formed value with its view.
-/
import Subprotocol.Capabilities.Lemmas

namespace Subprotocol

theorem Spans.le_lastVersion_of_holds {l : Spans} {v : Nat} (h : l.Holds v) :
    v ≤ lastVersion := by
  obtain ⟨s, -, hv⟩ := h
  exact Nat.le_trans hv.2 s.bounded

theorem Spans.ofList_eq_self {l : Spans} (hl : l.Separated) : Spans.ofList l = l :=
  Spans.eq_of_holds_iff (Spans.separated_ofList l) hl fun _ => Spans.holds_ofList

namespace Capabilities

theorem le_lastVersion_of_lists {c : Capabilities} {name : String} {v : Nat}
    (h : c.Lists name v) : v ≤ lastVersion := by
  obtain ⟨e, -, -, hv⟩ := h
  exact Spans.le_lastVersion_of_holds hv

/-! ### Names -/

/-- No name is there without a version. -/
theorem WellFormed.mem_names_iff {c : Capabilities} (hc : c.WellFormed) {name : String} :
    name ∈ c.names ↔ ∃ v, c.Lists name v := by
  rw [names, List.mem_map]
  constructor
  · intro h
    obtain ⟨e, he, hname⟩ := h
    obtain ⟨v, hv⟩ := Spans.exists_holds (hc.nonempty e he)
    exact ⟨v, e, he, hname, hv⟩
  · intro h
    obtain ⟨v, e, he, hname, -⟩ := h
    exact ⟨e, he, hname⟩

/-- Without versions there are no names either. -/
theorem WellFormed.isEmpty_iff {c : Capabilities} (hc : c.WellFormed) :
    c.IsEmpty ↔ ∀ name v, ¬ c.Lists name v := by
  constructor
  · intro hempty name v hv
    obtain ⟨e, he, -⟩ := hv
    rw [show c.entries = [] from hempty] at he
    exact List.not_mem_nil he
  · intro h
    refine List.eq_nil_iff_forall_not_mem.mpr fun e he => ?_
    obtain ⟨v, hv⟩ := hc.mem_names_iff.mp (List.mem_map.mpr ⟨e, he, rfl⟩)
    exact h e.name v hv

/-! ### The spans under a name -/

theorem WellFormed.separated_spansOf {c : Capabilities} (hc : c.WellFormed) (name : String) :
    (c.spansOf name).Separated := by
  rw [Capabilities.spansOf]
  cases hget : c.get? name with
  | none => exact List.Pairwise.nil
  | some e => exact (hc.entry e (mem_of_get? hget).1).separated

theorem supports_spansOf (c : Capabilities) (name : String) (v : Nat) :
    (c.spansOf name).supports v = c.supports name v := by
  rw [Capabilities.spansOf, Capabilities.supports]
  cases c.get? name <;> rfl

theorem WellFormed.holds_spansOf {c : Capabilities} (hc : c.WellFormed) {name : String} {v : Nat} :
    (c.spansOf name).Holds v ↔ c.Lists name v := by
  rw [← Spans.supports_iff_holds (hc.separated_spansOf name), supports_spansOf,
    hc.supports_iff_lists]

/-! ### Rebuilding -/

theorem WellFormed.ofEntries_eq_self {c : Capabilities} (hc : c.WellFormed) :
    Capabilities.ofEntries c.entries = c :=
  eq_of_lists_iff (WellFormed.ofEntries hc.entry) hc fun _ _ => lists_ofEntries

/-- Entries can be collected in two parts, and the parts merged. -/
theorem ofEntries_append {l m : List Entry} (hl : ∀ e ∈ l, e.WellFormed)
    (hm : ∀ e ∈ m, e.WellFormed) : ofEntries (l ++ m) = (ofEntries l).merge (ofEntries m) := by
  have hboth : ∀ e ∈ l ++ m, e.WellFormed := List.forall_mem_append.mpr ⟨hl, hm⟩
  have hmerged := (WellFormed.ofEntries hl).merge (WellFormed.ofEntries hm)
  refine eq_of_lists_iff (WellFormed.ofEntries hboth) hmerged fun name v => ?_
  simp only [lists_merge, lists_ofEntries, List.mem_append, or_and_right, exists_or]

/-! ### Unions -/

private theorem lists_foldl_merge {parts : List Capabilities} {c : Capabilities} {name : String}
    {v : Nat} :
    (parts.foldl Capabilities.merge c).Lists name v ↔
      c.Lists name v ∨ ∃ d ∈ parts, d.Lists name v := by
  induction parts generalizing c with
  | nil => simp
  | cons d rest ih => simp only [List.foldl_cons, ih, lists_merge, or_assoc, List.mem_cons, exists_eq_or_imp]

theorem lists_union {parts : List Capabilities} {name : String} {v : Nat} :
    (union parts).Lists name v ↔ ∃ c ∈ parts, c.Lists name v := by
  rw [union, lists_foldl_merge, or_iff_right (not_lists_empty name v)]

private theorem wellFormed_foldl_merge {parts : List Capabilities} {c : Capabilities}
    (hc : c.WellFormed) (h : ∀ d ∈ parts, d.WellFormed) :
    (parts.foldl Capabilities.merge c).WellFormed := by
  induction parts generalizing c with
  | nil => exact hc
  | cons d rest ih =>
      exact ih (hc.merge (h d (by simp))) fun e he => h e (List.mem_cons_of_mem d he)

theorem WellFormed.union {parts : List Capabilities} (h : ∀ c ∈ parts, c.WellFormed) :
    (Capabilities.union parts).WellFormed :=
  wellFormed_foldl_merge WellFormed.empty h

/-- The first of the parts can be merged with the union of the rest. -/
theorem union_cons {c : Capabilities} {parts : List Capabilities} (hc : c.WellFormed)
    (h : ∀ d ∈ parts, d.WellFormed) : union (c :: parts) = c.merge (union parts) := by
  have hall : ∀ d ∈ c :: parts, d.WellFormed := List.forall_mem_cons.mpr ⟨hc, h⟩
  refine eq_of_lists_iff (WellFormed.union hall) (hc.merge (WellFormed.union h)) fun name v => ?_
  simp only [lists_merge, lists_union, List.mem_cons, exists_eq_or_imp]

end Capabilities

end Subprotocol

/-
What the operations on capabilities do to the set of name and version pairs.

`Lists` is the view.  It does not ask where in the list an entry stands, so what an
insertion does to it can be said of any entries; that the entries ascend matters only
for looking one up.  Every operation keeps capabilities well formed, and well formed
capabilities with the same view are equal: the names that are listed determine the
entries' names and their order, and the versions listed under each name determine its
spans.
-/
import Subprotocol.Capabilities
import Subprotocol.Spans.Lemmas

namespace Subprotocol

theorem Entry.WellFormed.absorb {e : Entry} (h : e.WellFormed) (other : Entry) :
    (e.absorb other).WellFormed :=
  ⟨h.name, Spans.separated_insertAll h.separated⟩

theorem Entry.WellFormed.supports_iff_holds {e : Entry} (he : e.WellFormed) {v : Nat} :
    e.supports v = true ↔ e.spans.Holds v :=
  Spans.supports_iff_holds he.separated

theorem Spans.exists_holds {l : Spans} (h : l ≠ []) : ∃ v, Holds l v := by
  cases l with
  | nil => exact absurd rfl h
  | cons s rest =>
    exact ⟨s.low, holds_cons.mpr (.inl s.low_mem)⟩

theorem Spans.ne_nil_of_holds {l : Spans} {v : Nat} (h : Holds l v) : l ≠ [] := by
  rintro rfl
  exact not_holds_nil v h

namespace Capabilities

/-! ### Looking up -/

theorem not_lists_empty (name : String) (v : Nat) : ¬ empty.Lists name v := by
  intro h
  obtain ⟨e, he, -⟩ := h
  exact absurd he List.not_mem_nil

theorem lists_cons {e : Entry} {l : List Entry} {name : String} {v : Nat} :
    Lists ⟨e :: l⟩ name v ↔ (e.name = name ∧ e.spans.Holds v) ∨ Lists ⟨l⟩ name v := by
  simp [Lists]

theorem mem_of_get? {c : Capabilities} {name : String} {e : Entry} (h : c.get? name = some e) :
    e ∈ c.entries ∧ e.name = name :=
  ⟨List.mem_of_find?_eq_some h, by simpa using List.find?_some h⟩

/-- In ascending entries a name occurs once. -/
theorem eq_of_mem_of_name_eq {l : List Entry} (hl : l.Pairwise fun a b => a.name < b.name)
    {e f : Entry} (he : e ∈ l) (hf : f ∈ l) (h : e.name = f.name) : e = f := by
  induction l with
  | nil => exact absurd he List.not_mem_nil
  | cons g rest ih =>
    obtain ⟨hg, hrest⟩ := List.pairwise_cons.mp hl
    rcases List.mem_cons.mp he with he | he <;> rcases List.mem_cons.mp hf with hf | hf
    · rw [he, hf]
    · have hlt := hg f hf
      rw [← he, h] at hlt
      exact absurd hlt (String.lt_irrefl _)
    · have hlt := hg e he
      rw [← hf, h] at hlt
      exact absurd hlt (String.lt_irrefl _)
    · exact ih hrest he hf

theorem WellFormed.get?_eq_some {c : Capabilities} (hc : c.WellFormed) {e : Entry}
    (he : e ∈ c.entries) : c.get? e.name = some e := by
  cases hget : c.get? e.name with
  | none =>
    have := List.find?_eq_none.mp hget e he
    simp at this
  | some f =>
    obtain ⟨hf, hname⟩ := mem_of_get? hget
    rw [eq_of_mem_of_name_eq hc.ascending hf he hname]

theorem WellFormed.supports_iff_lists {c : Capabilities} (hc : c.WellFormed) {name : String}
    {v : Nat} : c.supports name v = true ↔ c.Lists name v := by
  constructor
  · intro h
    cases hget : c.get? name with
    | none => simp [supports, hget] at h
    | some e =>
      obtain ⟨he, hname⟩ := mem_of_get? hget
      simp only [supports, hget, Entry.supports] at h
      exact ⟨e, he, hname, (Spans.supports_iff_holds (hc.entry e he).separated).mp h⟩
  · intro h
    obtain ⟨e, he, rfl, hv⟩ := h
    simp only [supports, hc.get?_eq_some he, Entry.supports]
    exact (Spans.supports_iff_holds (hc.entry e he).separated).mpr hv

/-! ### Adding an entry -/

private theorem name_of_mem_place {e x : Entry} {l : List Entry} (h : x ∈ place e l) :
    x.name = e.name ∨ ∃ f ∈ l, x.name = f.name := by
  induction l with
  | nil => exact .inl (by rw [List.mem_singleton.mp h])
  | cons f rest ih =>
    simp only [place] at h
    split at h
    · rcases List.mem_cons.mp h with rfl | hx
      · exact .inr ⟨f, by simp, rfl⟩
      · exact .inr ⟨x, by simp [hx], rfl⟩
    · split at h
      · rcases List.mem_cons.mp h with rfl | hx
        · exact .inl rfl
        · exact .inr ⟨x, hx, rfl⟩
      · rcases List.mem_cons.mp h with rfl | hx
        · exact .inr ⟨x, by simp, rfl⟩
        · rcases ih hx with hname | ⟨g, hg, hname⟩
          · exact .inl hname
          · exact .inr ⟨g, by simp [hg], hname⟩

private theorem ascending_place {e : Entry} {l : List Entry}
    (hl : l.Pairwise fun a b => a.name < b.name) :
    (place e l).Pairwise fun a b => a.name < b.name := by
  induction l with
  | nil => simp [place]
  | cons f rest ih =>
    obtain ⟨hf, hrest⟩ := List.pairwise_cons.mp hl
    simp only [place]
    split
    · exact List.pairwise_cons.mpr ⟨hf, hrest⟩
    · rename_i hne
      split
      · rename_i hlt
        refine List.pairwise_cons.mpr ⟨?_, hl⟩
        intro x hx
        rcases List.mem_cons.mp hx with rfl | hx
        · exact hlt
        · exact String.lt_trans hlt (hf x hx)
      · rename_i hnlt
        have hfe : f.name < e.name := by
          refine Decidable.byContradiction fun hnot => hne ?_
          exact String.le_antisymm hnot hnlt
        refine List.pairwise_cons.mpr ⟨?_, ih hrest⟩
        intro x hx
        rcases name_of_mem_place hx with hname | ⟨g, hg, hname⟩
        · rw [hname]
          exact hfe
        · rw [hname]
          exact hf g hg

private theorem mem_place {e x : Entry} {l : List Entry} (h : x ∈ place e l) :
    x = e ∨ x ∈ l ∨ ∃ f ∈ l, x = f.absorb e := by
  induction l with
  | nil => exact .inl (List.mem_singleton.mp h)
  | cons f rest ih =>
    simp only [place] at h
    split at h
    · rcases List.mem_cons.mp h with rfl | hx
      · exact .inr (.inr ⟨f, by simp, rfl⟩)
      · exact .inr (.inl (by simp [hx]))
    · split at h
      · rcases List.mem_cons.mp h with rfl | hx
        · exact .inl rfl
        · exact .inr (.inl hx)
      · rcases List.mem_cons.mp h with rfl | hx
        · exact .inr (.inl (by simp))
        · rcases ih hx with rfl | hmem | ⟨g, hg, rfl⟩
          · exact .inl rfl
          · exact .inr (.inl (by simp [hmem]))
          · exact .inr (.inr ⟨g, by simp [hg], rfl⟩)

private theorem lists_place {e : Entry} {l : List Entry} {name : String} {v : Nat} :
    Lists ⟨place e l⟩ name v ↔ (e.name = name ∧ e.spans.Holds v) ∨ Lists ⟨l⟩ name v := by
  induction l with
  | nil => simp [place, Lists]
  | cons f rest ih =>
    simp only [place]
    split
    · rename_i heq
      simp only [lists_cons, Entry.absorb, Spans.holds_insertAll, heq, and_or_left, or_assoc,
        or_left_comm]
    · split
      · rw [lists_cons]
      · rw [lists_cons, ih, lists_cons, or_left_comm]

theorem lists_insertEntry {c : Capabilities} {e : Entry} {name : String} {v : Nat} :
    (c.insertEntry e).Lists name v ↔ c.Lists name v ∨ (e.name = name ∧ e.spans.Holds v) := by
  unfold insertEntry
  split
  · rename_i hempty
    have hspans : e.spans = [] := hempty
    simp [hspans, Spans.not_holds_nil]
  · rw [lists_place, or_comm]

theorem WellFormed.empty : Capabilities.empty.WellFormed :=
  ⟨List.Pairwise.nil, fun _ he => absurd he List.not_mem_nil,
    fun _ he => absurd he List.not_mem_nil⟩

theorem WellFormed.insertEntry {c : Capabilities} (hc : c.WellFormed) {e : Entry}
    (he : e.WellFormed) : (c.insertEntry e).WellFormed := by
  unfold Capabilities.insertEntry
  split
  · exact hc
  · rename_i hempty
    refine ⟨ascending_place hc.ascending, ?_, ?_⟩
    · intro x hx
      rcases mem_place hx with rfl | hmem | ⟨f, hf, rfl⟩
      · exact he
      · exact hc.entry x hmem
      · exact (hc.entry f hf).absorb e
    · intro x hx
      rcases mem_place hx with rfl | hmem | ⟨f, hf, rfl⟩
      · exact hempty
      · exact hc.nonempty x hmem
      · obtain ⟨v, hv⟩ := Spans.exists_holds (hc.nonempty f hf)
        exact Spans.ne_nil_of_holds (Spans.holds_insertAll.mpr (.inl hv))

/-! ### Adding many entries -/

private theorem lists_foldl {entries : List Entry} {c : Capabilities} {name : String} {v : Nat} :
    (entries.foldl Capabilities.insertEntry c).Lists name v ↔
      c.Lists name v ∨ Lists ⟨entries⟩ name v := by
  induction entries generalizing c with
  | nil => simp [Lists]
  | cons e rest ih =>
    rw [List.foldl_cons, ih, lists_insertEntry, or_assoc, lists_cons]

private theorem WellFormed.foldl {entries : List Entry} {c : Capabilities} (hc : c.WellFormed)
    (h : ∀ e ∈ entries, e.WellFormed) :
    (entries.foldl Capabilities.insertEntry c).WellFormed := by
  induction entries generalizing c with
  | nil => exact hc
  | cons e rest ih =>
    exact ih (hc.insertEntry (h e (by simp))) fun f hf => h f (by simp [hf])

theorem lists_merge {c other : Capabilities} {name : String} {v : Nat} :
    (c.merge other).Lists name v ↔ c.Lists name v ∨ other.Lists name v :=
  lists_foldl

theorem WellFormed.merge {c other : Capabilities} (hc : c.WellFormed) (ho : other.WellFormed) :
    (c.merge other).WellFormed :=
  hc.foldl ho.entry

theorem lists_ofEntries {entries : List Entry} {name : String} {v : Nat} :
    (ofEntries entries).Lists name v ↔ ∃ e ∈ entries, e.name = name ∧ e.spans.Holds v := by
  rw [ofEntries, lists_foldl, or_iff_right (not_lists_empty name v)]
  rfl

theorem WellFormed.ofEntries {entries : List Entry} (h : ∀ e ∈ entries, e.WellFormed) :
    (Capabilities.ofEntries entries).WellFormed :=
  WellFormed.empty.foldl h

/-! ### The view determines the capabilities -/

private theorem lists_iff_holds {c : Capabilities} (hc : c.WellFormed) {e : Entry}
    (he : e ∈ c.entries) {v : Nat} : c.Lists e.name v ↔ e.spans.Holds v := by
  constructor
  · intro h
    obtain ⟨f, hf, hname, hv⟩ := h
    rwa [← eq_of_mem_of_name_eq hc.ascending hf he hname]
  · intro hv
    exact ⟨e, he, rfl, hv⟩

/-- An entry of one occurs in the other, under the same name and with the same versions. -/
private theorem mem_entries_of_view {a b : Capabilities} (ha : a.WellFormed) (hb : b.WellFormed)
    (h : ∀ name v, a.Lists name v ↔ b.Lists name v) {e : Entry} (he : e ∈ a.entries) :
    e ∈ b.entries := by
  obtain ⟨v, hv⟩ := Spans.exists_holds (ha.nonempty e he)
  obtain ⟨f, hf, hname, -⟩ := (h e.name v).mp ((lists_iff_holds ha he).mpr hv)
  have hspans : e.spans = f.spans := by
    refine Spans.eq_of_holds_iff (ha.entry e he).separated (hb.entry f hf).separated fun w => ?_
    rw [← lists_iff_holds ha he, h, ← hname, lists_iff_holds hb hf]
  have hef : e = f := by
    cases e
    cases f
    simp_all
  rwa [hef]

private theorem eq_of_ascending {l m : List Entry} (hl : l.Pairwise fun a b => a.name < b.name)
    (hm : m.Pairwise fun a b => a.name < b.name) (h : ∀ e, e ∈ l ↔ e ∈ m) : l = m := by
  induction l generalizing m with
  | nil =>
    cases m with
    | nil => rfl
    | cons f m => exact absurd ((h f).mpr (by simp)) List.not_mem_nil
  | cons e l ih =>
    cases m with
    | nil => exact absurd ((h e).mp (by simp)) List.not_mem_nil
    | cons f m =>
      obtain ⟨he, hl'⟩ := List.pairwise_cons.mp hl
      obtain ⟨hf, hm'⟩ := List.pairwise_cons.mp hm
      have hef : e = f := by
        rcases List.mem_cons.mp ((h e).mp (by simp)) with heq | hem
        · exact heq
        rcases List.mem_cons.mp ((h f).mpr (by simp)) with heq | hfl
        · exact heq.symm
        exact absurd (String.lt_trans (he f hfl) (hf e hem)) (String.lt_irrefl _)
      subst hef
      refine congrArg (e :: ·) (ih hl' hm' fun x => ?_)
      constructor
      · intro hx
        refine (List.mem_cons.mp ((h x).mp (by simp [hx]))).resolve_left ?_
        rintro rfl
        exact String.lt_irrefl _ (he x hx)
      · intro hx
        refine (List.mem_cons.mp ((h x).mpr (by simp [hx]))).resolve_left ?_
        rintro rfl
        exact String.lt_irrefl _ (hf x hx)

/-- Well formed capabilities that list the same pairs are the same. -/
theorem eq_of_lists_iff {a b : Capabilities} (ha : a.WellFormed) (hb : b.WellFormed)
    (h : ∀ name v, a.Lists name v ↔ b.Lists name v) : a = b := by
  have hentries : a.entries = b.entries :=
    eq_of_ascending ha.ascending hb.ascending fun _ =>
      ⟨mem_entries_of_view ha hb h, mem_entries_of_view hb ha fun name v => (h name v).symm⟩
  cases a
  cases b
  simp_all

end Capabilities

end Subprotocol

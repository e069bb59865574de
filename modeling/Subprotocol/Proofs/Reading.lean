/-
Readings that can fail.

A list is read piece by piece, and each reader hands on the first failure of the ones it
calls.  What such a reader does can be said without its steps: a chain succeeds when
every link does, and a row of readings fails exactly as its first failing member does.
-/
import Mathlib.Data.List.Forall2

namespace Subprotocol.Reading

variable {α β ε δ : Type}

theorem isOk_iff {x : Except ε α} : x.isOk = true ↔ ∃ a, x = .ok a := by
  cases x with
  | error e => simp [Except.isOk, Except.toBool]
  | ok a => simp [Except.isOk, Except.toBool]

theorem toOption_eq_some_iff {x : Except ε α} {a : α} : x.toOption = some a ↔ x = .ok a := by
  cases x with
  | error e => simp [Except.toOption]
  | ok b => simp [Except.toOption]

/-! ### One reading after another -/

theorem bind_eq_ok_iff {x : Except ε α} {f : α → Except ε β} {b : β} :
    (x >>= f) = .ok b ↔ ∃ a, x = .ok a ∧ f a = .ok b := by
  cases x with
  | error e => simp [bind, Except.bind]
  | ok a => simp [bind, Except.bind]

theorem bind_eq_error_iff {x : Except ε α} {f : α → Except ε β} {e : ε} :
    (x >>= f) = .error e ↔ x = .error e ∨ ∃ a, x = .ok a ∧ f a = .error e := by
  cases x with
  | error e' => simp [bind, Except.bind]
  | ok a => simp [bind, Except.bind]

theorem pure_eq_ok_iff {a b : α} : (pure a : Except ε α) = .ok b ↔ b = a := by
  simp [pure, Except.pure, eq_comm]

theorem map_eq_ok_iff {x : Except ε α} {f : α → β} {b : β} :
    x.map f = .ok b ↔ ∃ a, x = .ok a ∧ f a = b := by
  cases x with
  | error e => simp [Except.map]
  | ok a => simp [Except.map]

theorem map_eq_error_iff {x : Except ε α} {f : α → β} {e : ε} :
    x.map f = .error e ↔ x = .error e := by
  cases x with
  | error e' => simp [Except.map]
  | ok a => simp [Except.map]

theorem mapError_eq_ok_iff {x : Except ε α} {f : ε → δ} {a : α} :
    x.mapError f = .ok a ↔ x = .ok a := by
  cases x with
  | error e => simp [Except.mapError]
  | ok a => simp [Except.mapError]

theorem mapError_eq_error_iff {x : Except ε α} {f : ε → δ} {d : δ} :
    x.mapError f = .error d ↔ ∃ e, x = .error e ∧ f e = d := by
  cases x with
  | error e => simp [Except.mapError]
  | ok a => simp [Except.mapError]

/-! ### A row of readings -/

theorem mapM_eq_ok_iff {f : α → Except ε β} {l : List α} {r : List β} :
    l.mapM f = .ok r ↔ List.Forall₂ (fun a b => f a = .ok b) l r := by
  induction l generalizing r with
  | nil => rw [List.mapM_nil, pure_eq_ok_iff, List.forall₂_nil_left_iff]
  | cons a l ih =>
      rw [List.mapM_cons, bind_eq_ok_iff, List.forall₂_cons_left_iff]
      constructor
      · intro h
        obtain ⟨b, hb, hrest⟩ := h
        obtain ⟨bs, hbs, hr⟩ := bind_eq_ok_iff.mp hrest
        exact ⟨b, bs, hb, ih.mp hbs, pure_eq_ok_iff.mp hr⟩
      · intro h
        obtain ⟨b, bs, hb, hbs, hr⟩ := h
        exact ⟨b, hb, bind_eq_ok_iff.mpr ⟨bs, ih.mpr hbs, pure_eq_ok_iff.mpr hr⟩⟩

/-- A row of readings that give no reason for a failure. -/
theorem mapM_eq_some_iff {f : α → Option β} {l : List α} {r : List β} :
    l.mapM f = some r ↔ List.Forall₂ (fun a b => f a = some b) l r := by
  induction l generalizing r with
  | nil => simp [eq_comm]
  | cons a l ih =>
      simp [Option.bind_eq_some_iff, List.forall₂_cons_left_iff, ih, eq_comm (a := r)]

/-- What a row of readings yields is what its members do. -/
theorem mem_of_mapM {f : α → Except ε β} {l : List α} {r : List β} (h : l.mapM f = .ok r)
    {b : β} : b ∈ r ↔ ∃ a ∈ l, f a = .ok b := by
  rw [mapM_eq_ok_iff] at h
  induction h with
  | nil => simp
  | cons ha _ ih => rw [List.mem_cons, ih, List.exists_mem_cons_iff, ha, Except.ok.injEq, eq_comm]

/-- A row of readings succeeds if each of them does. -/
theorem exists_mapM_eq_ok_iff {f : α → Except ε β} {l : List α} :
    (∃ r, l.mapM f = .ok r) ↔ ∀ a ∈ l, ∃ b, f a = .ok b := by
  induction l with
  | nil => exact ⟨fun _ a ha => absurd ha List.not_mem_nil, fun _ => ⟨[], rfl⟩⟩
  | cons a l ih =>
      rw [List.forall_mem_cons, ← ih]
      constructor
      · intro h
        obtain ⟨r, hr⟩ := h
        obtain ⟨b, bs, hb, hbs, -⟩ := List.forall₂_cons_left_iff.mp (mapM_eq_ok_iff.mp hr)
        exact ⟨⟨b, hb⟩, bs, mapM_eq_ok_iff.mpr hbs⟩
      · intro h
        obtain ⟨⟨b, hb⟩, bs, hbs⟩ := h
        exact ⟨b :: bs, mapM_eq_ok_iff.mpr (.cons hb (mapM_eq_ok_iff.mp hbs))⟩

/-- A row of readings fails as its first failing member does. -/
theorem mapM_eq_error_iff {f : α → Except ε β} {l : List α} {e : ε} :
    l.mapM f = .error e ↔ ∃ before a after, l = before ++ a :: after ∧
      (∀ x ∈ before, ∃ b, f x = .ok b) ∧ f a = .error e := by
  induction l with
  | nil => simp [pure, Except.pure]
  | cons a l ih =>
      rw [List.mapM_cons, bind_eq_error_iff]
      constructor
      · intro h
        rcases h with ha | ⟨b, hb, hrest⟩
        · exact ⟨[], a, l, rfl, by simp, ha⟩
        · rcases bind_eq_error_iff.mp hrest with hl | ⟨bs, -, hpure⟩
          · obtain ⟨before, x, after, hsplit, hbefore, hx⟩ := ih.mp hl
            exact ⟨a :: before, x, after, by rw [hsplit]; rfl,
              List.forall_mem_cons.mpr ⟨⟨b, hb⟩, hbefore⟩, hx⟩
          · exact absurd hpure (by simp [pure, Except.pure])
      · intro h
        obtain ⟨before, x, after, hsplit, hbefore, hx⟩ := h
        cases before with
        | nil =>
            obtain ⟨rfl, -⟩ := List.cons_eq_cons.mp hsplit
            exact Or.inl hx
        | cons y before =>
            obtain ⟨rfl, hl⟩ := List.cons_eq_cons.mp hsplit
            obtain ⟨⟨b, hb⟩, hbefore⟩ := List.forall_mem_cons.mp hbefore
            refine Or.inr ⟨b, hb, bind_eq_error_iff.mpr (Or.inl ?_)⟩
            exact ih.mpr ⟨before, x, after, hl, hbefore, hx⟩

/-- The members that can be read form a row that can be read. -/
theorem mapM_filter_isOk (f : α → Except ε β) (l : List α) :
    (l.filter fun a => (f a).isOk).mapM f = .ok (l.filterMap fun a => (f a).toOption) := by
  induction l with
  | nil => rfl
  | cons a l ih =>
      cases ha : f a with
      | error e =>
          rw [List.filter_cons, List.filterMap_cons, ha]
          exact ih
      | ok b =>
          rw [List.filter_cons, List.filterMap_cons, ha]
          show (a :: l.filter _).mapM f = .ok (b :: l.filterMap _)
          rw [List.mapM_cons, ha, ih]
          rfl

end Subprotocol.Reading

/-
Decimal numerals.

A numeral is a nonempty run of the ten ASCII digits; leading zeros are allowed and
a sign is not.  `digits` writes a number without leading zeros, `value` reads a
run of digits, and `read` adds the two checks a reader makes on foreign text: that
the text is a numeral at all, and that its value fits.  The value is computed
without a bound first, so a numeral of any length is judged exactly.
-/

namespace Subprotocol.Decimal

/-- The digits of `n`, without leading zeros. -/
def digits (n : Nat) : List Char := Nat.toDigits 10 n

/-- The number that a run of digits stands for. -/
def value (s : List Char) : Nat := Nat.ofDigitChars 10 s 0

/-- `s` is a numeral. -/
def IsNumeral (s : List Char) : Prop := s ≠ [] ∧ ∀ c ∈ s, c.isDigit = true

instance (s : List Char) : Decidable (IsNumeral s) :=
  decidable_of_iff (s ≠ [] ∧ s.all Char.isDigit = true) (by rw [List.all_eq_true, IsNumeral])

/-- Why a text is no number up to some bound. -/
inductive Fault
  | notNumeral
  | tooLarge
deriving DecidableEq

/-- The number written in `s`, which must not exceed `top`. -/
def read (top : Nat) (s : List Char) : Except Fault Nat :=
  if IsNumeral s then
    if value s ≤ top then .ok (value s) else .error .tooLarge
  else .error .notNumeral

/-! ### Writing and reading back -/

@[simp] theorem value_digits (n : Nat) : value (digits n) = n :=
  Nat.ofDigitChars_ten_toDigits

theorem isNumeral_digits (n : Nat) : IsNumeral (digits n) :=
  ⟨Nat.toDigits_ne_nil, fun _ hc => Nat.isDigit_of_mem_toDigits (by decide) (by decide) hc⟩

theorem read_digits {top n : Nat} (h : n ≤ top) : read top (digits n) = .ok n := by
  simp [read, isNumeral_digits, h]

theorem read_eq_ok_iff {top n : Nat} {s : List Char} :
    read top s = .ok n ↔ IsNumeral s ∧ value s = n ∧ n ≤ top := by
  unfold read
  split <;> rename_i hs
  · split <;> rename_i hv <;> simp [hs] <;> omega
  · simp [hs]

/-! ### Numerals without leading zeros

Of all numerals of a number `digits` is the only one of this form, so a text that keeps to
it has one way to write each number.
-/

/-- A zero stands in front of `s` only if it is all of `s`. -/
def IsPlain (s : List Char) : Prop := s.head? = some '0' → s = ['0']

private theorem toNat_digitChar : ∀ d < 10, d.digitChar.toNat = d + 48 := by decide

/-- What a digit stands for, counted from `0`. -/
private theorem toNat_of_isDigit {c : Char} (h : c.isDigit = true) :
    48 ≤ c.toNat ∧ c.toNat ≤ 57 ∧ '0'.toNat = 48 := by
  simpa [Char.isDigit, UInt32.le_iff_toNat_le] using h

private theorem digits_of_isDigit {c : Char} (h : c.isDigit = true) :
    digits (c.toNat - '0'.toNat) = [c] := by
  have hrange := toNat_of_isDigit h
  have hsmall : c.toNat - '0'.toNat < 10 := by omega
  have hchar : (c.toNat - '0'.toNat).digitChar = c := by
    refine Char.toNat_inj.mp ?_
    rw [toNat_digitChar _ hsmall]
    omega
  unfold digits
  rw [Nat.toDigits_of_lt_base hsmall, hchar]

/-- Digits behind a number that is not zero are written as they are. -/
private theorem digits_ofDigitChars {s : List Char} (hs : ∀ c ∈ s, c.isDigit = true) {n : Nat}
    (hn : 0 < n) : digits (Nat.ofDigitChars 10 s n) = digits n ++ s := by
  induction s generalizing n with
  | nil => rw [Nat.ofDigitChars_nil, List.append_nil]
  | cons c rest ih =>
      obtain ⟨hc, hrest⟩ := List.forall_mem_cons.mp hs
      have hrange := toNat_of_isDigit hc
      have hnext : digits (10 * n + (c.toNat - '0'.toNat)) = digits n ++ [c] := by
        rw [← digits_of_isDigit hc]
        exact (Nat.toDigits_append_toDigits (by decide) hn (by omega)).symm
      rw [Nat.ofDigitChars_cons, ih hrest (by omega), hnext, List.append_assoc,
        List.singleton_append]

/-- A numeral without leading zeros is the one that is written for its value. -/
theorem digits_value {s : List Char} (hs : IsNumeral s) (hplain : IsPlain s) :
    digits (value s) = s := by
  obtain ⟨c, rest, rfl⟩ := List.exists_cons_of_ne_nil hs.1
  obtain ⟨hc, hrest⟩ := List.forall_mem_cons.mp hs.2
  by_cases hzero : c = '0'
  · have hsingle : c :: rest = ['0'] := hplain (by rw [hzero]; rfl)
    rw [hsingle]
    rfl
  · have hrange := toNat_of_isDigit hc
    have hne : c.toNat ≠ '0'.toNat := fun h => hzero (Char.toNat_inj.mp h)
    unfold value
    rw [Nat.ofDigitChars_cons, digits_ofDigitChars hrest (by omega), Nat.mul_zero, Nat.zero_add,
      digits_of_isDigit hc, List.singleton_append]

/-- Written numbers have no leading zeros, since the digits in front write a smaller number. -/
theorem isPlain_digits (n : Nat) : IsPlain (digits n) := by
  induction n using Nat.strongRecOn with
  | _ n ih =>
      unfold IsPlain digits
      intro h
      by_cases hsmall : n < 10
      · rw [Nat.toDigits_of_lt_base hsmall] at h ⊢
        rw [← Option.some.inj h]
      · obtain ⟨c, rest, hfront⟩ : ∃ c rest, digits (n / 10) = c :: rest :=
          List.exists_cons_of_ne_nil Nat.toDigits_ne_nil
        have hlonger : Nat.toDigits 10 n = digits (n / 10) ++ [(n % 10).digitChar] :=
          Nat.toDigits_of_base_le (by decide) (by omega)
        rw [hlonger, hfront] at h
        have hzero : digits (n / 10) = ['0'] := ih (n / 10) (by omega) (by rw [hfront]; exact h)
        have hvalue : n / 10 = value ['0'] := by rw [← hzero, value_digits]
        have hnone : value ['0'] = 0 := rfl
        omega

/-- No numeral of a number is shorter than the one that is written for it. -/
theorem length_digits_value_le {s : List Char} (hs : IsNumeral s) :
    (digits (value s)).length ≤ s.length := by
  obtain ⟨hne, hdigits⟩ := hs
  induction s with
  | nil => exact absurd rfl hne
  | cons c rest ih =>
      by_cases hplain : IsPlain (c :: rest)
      · exact Nat.le_of_eq (congrArg List.length (digits_value ⟨hne, hdigits⟩ hplain))
      · -- What is not plain starts with a zero that can be left out.
        obtain ⟨hzero, hrest⟩ := Classical.not_imp.mp hplain
        have hc : c = '0' := Option.some.inj hzero
        have hvalue : value (c :: rest) = value rest := by
          unfold value
          rw [hc, Nat.ofDigitChars_cons]
          rfl
        have hnonempty : rest ≠ [] := by
          intro hnil
          exact hrest (by rw [hc, hnil])
        have hle := ih hnonempty (List.forall_mem_cons.mp hdigits).2
        rw [hvalue, List.length_cons]
        omega

end Subprotocol.Decimal

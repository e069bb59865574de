/-
Blank characters, and the words that stand between them.

Lists, ballots and release names arrive as free text whose parts are separated by
blanks.  Which characters are blank is the Unicode property White_Space, written
here as a table of code point ranges; the property has been stable for so long
that a table is the whole definition.

`words` cuts a text at every blank and keeps the pieces that hold something, so a
run of blanks separates just as one blank does, and blanks at either end belong to
no word.
-/

namespace Subprotocol.Text

/-- A set of characters, as inclusive ranges of code points. -/
abbrev CodeRanges := List (Nat × Nat)

/-- `c` lies in one of the ranges. -/
def CodeRanges.holds (ranges : CodeRanges) (c : Char) : Bool :=
  ranges.any fun range => range.1 ≤ c.toNat && c.toNat ≤ range.2

/-- The characters with the Unicode property White_Space. -/
def blanks : CodeRanges :=
  [(0x09, 0x0d), (0x20, 0x20), (0x85, 0x85), (0xa0, 0xa0), (0x1680, 0x1680), (0x2000, 0x200a),
    (0x2028, 0x2029), (0x202f, 0x202f), (0x205f, 0x205f), (0x3000, 0x3000)]

/-- `c` is a blank. -/
def isBlank (c : Char) : Bool := blanks.holds c

theorem isBlank_of_isDigit {c : Char} (h : c.isDigit = true) : isBlank c = false := by
  simp only [Char.isDigit, Bool.and_eq_true, decide_eq_true_eq, ge_iff_le,
    UInt32.le_iff_toNat_le] at h
  have hrange : 48 ≤ c.toNat ∧ c.toNat ≤ 57 := h
  simp only [isBlank, CodeRanges.holds, blanks, List.any_cons, List.any_nil,
    Bool.or_eq_false_iff, Bool.and_eq_false_iff, decide_eq_false_iff_not, Bool.or_false]
  omega

/-! ### Words -/

/-- The longest pieces of `s` that are free of blanks, in order. -/
def words (s : List Char) : List (List Char) :=
  (s.splitOnP isBlank).filter (· ≠ [])

/-- `s` without the blanks at its two ends. -/
def trim (s : List Char) : List Char :=
  ((s.dropWhile isBlank).reverse.dropWhile isBlank).reverse

@[simp] theorem words_nil : words [] = [] := by simp [words, List.splitOnP_nil]

/-- Everything about `words` on a longer text follows from its cut at one blank. -/
theorem words_append_blank {c : Char} (hc : isBlank c = true) (s t : List Char) :
    words (s ++ c :: t) = words s ++ words t := by
  simp [words, List.splitOnP_append_cons s t hc]

/-! ### Cutting at one character -/

/-- `s` cut at the first `sep`: what stands before it and what stands after it. -/
def cut? (sep : Char) : List Char → Option (List Char × List Char)
  | [] => none
  | c :: rest =>
    if c = sep then some ([], rest)
    else (cut? sep rest).map fun parts => (c :: parts.1, parts.2)

theorem cut?_eq_none_iff {sep : Char} {s : List Char} : cut? sep s = none ↔ sep ∉ s := by
  induction s with
  | nil => simp [cut?]
  | cons c rest ih =>
    by_cases h : c = sep
    · simp [cut?, h]
    · simp [cut?, h, ih, Ne.symm h]

theorem cut?_append {sep : Char} {s : List Char} (h : sep ∉ s) (t : List Char) :
    cut? sep (s ++ sep :: t) = some (s, t) := by
  induction s with
  | nil => simp [cut?]
  | cons c rest ih =>
    obtain ⟨hc, hrest⟩ := not_or.mp (mt List.mem_cons.mpr h)
    simp [cut?, Ne.symm hc, ih hrest]

/-- A cut loses the separator and nothing else. -/
theorem cut?_eq_some_iff {sep : Char} {s before after : List Char} :
    cut? sep s = some (before, after) ↔ s = before ++ sep :: after ∧ sep ∉ before := by
  refine ⟨fun h => ?_, fun h => h.1 ▸ cut?_append h.2 after⟩
  induction s generalizing before with
  | nil => simp [cut?] at h
  | cons c rest ih =>
    by_cases hc : c = sep
    · simp only [cut?, hc, if_true, Option.some.injEq, Prod.mk.injEq] at h
      obtain ⟨rfl, rfl⟩ := h
      simp [hc]
    · simp only [cut?, hc, if_false, Option.map_eq_some_iff, Prod.mk.injEq] at h
      obtain ⟨parts, hparts, rfl, rfl⟩ := h
      obtain ⟨rfl, hmem⟩ := ih hparts
      simp [Ne.symm hc, hmem]

end Subprotocol.Text

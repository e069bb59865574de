/-
The written form of a release names it.

The reader keeps its promises about the releases that it returns: their numbers fit, and a tag
holds something, holds no blank, and begins as its status asks.  These are just the releases whose
written form is a name, with four numerals between dots and the tag behind the first hyphen,
however many more of those the tag may hold.  A written form has no blanks.  So nothing is trimmed
from it, and it cannot begin with the program's name, which ends in one.  It is its own first
word, and it is read as the release that it is the name of.
-/
import Subprotocol.Proofs.Release.Naming

namespace Subprotocol.Release

open Text

/-- The numbers fit, and a status that is not final is announced by a word. -/
structure WellFormed (r : Release) : Prop where
  bounded : ∀ n ∈ r.numbers, n ≤ largestNumber
  announced : r.status = .final ∨
    ∃ tag, tag ≠ [] ∧ (∀ c ∈ tag, isBlank c = false) ∧ Announces tag r.status

variable {r r' : Release} {s : String} {t core numbers tag : List Char}
  {major minor micro patch : Nat} {status : Status}

/-! ### What is read is well formed -/

private theorem le_of_forall₂ {parts : List (List Char)} {l : List Nat}
    (h : List.Forall₂ IsNumber parts l) : ∀ n ∈ l, n ≤ largestNumber := by
  induction h with
  | nil => simp
  | cons hpart _ ih => exact List.forall_mem_cons.mpr ⟨hpart.2.2, ih⟩

theorem IsNumbers.bounded (h : IsNumbers numbers major minor micro patch) :
    ∀ n ∈ [major, minor, micro, patch], n ≤ largestNumber := by
  cases h with
  | three h =>
      have hmissing : ∀ n ∈ [0], n ≤ largestNumber := by simp
      exact List.forall_mem_append.mpr ⟨le_of_forall₂ h, hmissing⟩
  | four h => exact le_of_forall₂ h

theorem Names.wellFormed (h : Names core r) (hsolid : ∀ c ∈ core, isBlank c = false) :
    r.WellFormed := by
  cases h with
  | untagged h => exact ⟨h.bounded, Or.inl rfl⟩
  | tagged h nonempty announces =>
      obtain ⟨-, hbehind⟩ := List.forall_mem_append.mp hsolid
      exact ⟨h.bounded, Or.inr ⟨_, nonempty, (List.forall_mem_cons.mp hbehind).2, announces⟩⟩

theorem solid_of_core? (h : core? t = some core) : ∀ c ∈ core, isBlank c = false := by
  obtain ⟨_, u, -, -, gap, rest, -, -, hchunk⟩ := isCore_iff.mpr h
  exact hchunk.solid

theorem wellFormed_of_parse (h : parse s = .ok r) : r.WellFormed := by
  cases hcore : core? s.toList with
  | none =>
      rw [parse_eq_empty_iff.mpr (core?_eq_none_iff.mp hcore)] at h
      exact nomatch h
  | some core =>
      exact ((parse_eq_ok_iff_of_core hcore).mp h).wellFormed (solid_of_core? hcore)

/-! ### What is written names the release -/

/-- A status keeps the tag that announces it. -/
theorem Announces.tag?_eq (h : Announces tag status) :
    status.tag? = some (String.ofList tag) := by
  cases h <;> rfl

theorem isNumbers_digits (h : ∀ n ∈ r.numbers, n ≤ largestNumber) :
    IsNumbers (['.'].intercalate (r.numbers.map Decimal.digits)) r.major r.minor r.micro r.patch := by
  refine .four (List.forall₂_map_left_iff.mpr (List.forall₂_same.mpr fun n hn => ?_))
  exact ⟨Decimal.isNumeral_digits n, Decimal.value_digits n, h n hn⟩

theorem chars_of_final (h : r.status = .final) :
    r.chars = ['.'].intercalate (r.numbers.map Decimal.digits) := by
  unfold chars
  rw [h]
  exact List.append_nil _

theorem chars_of_announces (h : Announces tag r.status) :
    r.chars = ['.'].intercalate (r.numbers.map Decimal.digits) ++ '-' :: tag := by
  unfold chars
  rw [h.tag?_eq]
  simp only [String.toList_ofList]
  rfl

theorem WellFormed.names_chars (h : r.WellFormed) : Names r.chars r := by
  have hnumbers := isNumbers_digits h.bounded
  rcases h.announced with hfinal | ⟨tag, hne, -, hannounces⟩
  · rw [chars_of_final hfinal]
    obtain ⟨major, minor, micro, patch, status⟩ := r
    obtain rfl : status = .final := hfinal
    exact .untagged hnumbers
  · rw [chars_of_announces hannounces]
    exact .tagged hnumbers hne hannounces

theorem IsNumbers.solid (h : IsNumbers numbers major minor micro patch) :
    ∀ c ∈ numbers, isBlank c = false := by
  intro c hc
  rcases h.char c hc with hdigit | hdot
  · exact isBlank_of_isDigit hdigit
  · rw [hdot]
    decide

theorem WellFormed.solid_chars (h : r.WellFormed) : ∀ c ∈ r.chars, isBlank c = false := by
  have hnumbers := (isNumbers_digits h.bounded).solid
  rcases h.announced with hfinal | ⟨tag, -, hsolid, hannounces⟩
  · rw [chars_of_final hfinal]
    exact hnumbers
  · have hhyphen : isBlank '-' = false := by decide
    rw [chars_of_announces hannounces]
    exact List.forall_mem_append.mpr ⟨hnumbers, List.forall_mem_cons.mpr ⟨hhyphen, hsolid⟩⟩

theorem chars_ne_nil (r : Release) : r.chars ≠ [] := by
  have hdigits : Decimal.digits r.major ≠ [] := (Decimal.isNumeral_digits r.major).1
  simp [chars, List.intercalate_cons_cons, hdigits]

/-- **What is written for a well formed release is read as that release.** -/
theorem WellFormed.parse_text (h : r.WellFormed) : parse r.text = .ok r := by
  have hcore : core? r.text.toList = some r.chars := by
    unfold Release.text
    rw [String.toList_ofList]
    exact core?_of_solid r.chars_ne_nil h.solid_chars
  exact (parse_eq_ok_iff_of_core hcore).mpr h.names_chars

theorem WellFormed.text_injective (h : r.WellFormed) (h' : r'.WellFormed)
    (htext : r.text = r'.text) : r = r' := by
  have hparse := h.parse_text
  rw [htext, h'.parse_text] at hparse
  exact (Except.ok.inj hparse).symm

/-- The releases that can be named are the well formed ones. -/
theorem exists_parse_iff : (∃ s, parse s = .ok r) ↔ r.WellFormed := by
  constructor
  · intro h
    obtain ⟨s, hs⟩ := h
    exact wellFormed_of_parse hs
  · intro h
    exact ⟨r.text, h.parse_text⟩

/-- **The written form of a release that was read is read as the same release**, with its status
and tag, and two releases that were read are one exactly when their written forms are. -/
theorem text_round_trip (h : parse s = .ok r) :
    parse r.text = .ok r ∧ ∀ s' r', parse s' = .ok r' → (r = r' ↔ r.text = r'.text) := by
  have hr := wellFormed_of_parse h
  refine ⟨hr.parse_text, fun s' r' h' => ?_⟩
  exact ⟨congrArg text, hr.text_injective (wellFormed_of_parse h')⟩

/-- A tag with hyphens, dots and numbers of its own, in a name with leading zeros and no patch
level, and its written form as another name. -/
theorem text_round_trip_hyphens :
    parse "\tTor 00.2.9-rc-1.2.3-é (git-1f)" = .ok ⟨0, 2, 9, 0, .candidate "rc-1.2.3-é"⟩ ∧
    parse "0.2.9.0-rc-1.2.3-é" = .ok ⟨0, 2, 9, 0, .candidate "rc-1.2.3-é"⟩ ∧
    parse "0.2.9-other" = .ok ⟨0, 2, 9, 0, .other "other"⟩ ∧
    (⟨0, 2, 9, 0, .candidate "rc-1.2.3-é"⟩ : Release).text ≠
      (⟨0, 2, 9, 0, .other "other"⟩ : Release).text := by
  have hnamed : parse "\tTor 00.2.9-rc-1.2.3-é (git-1f)" =
      .ok ⟨0, 2, 9, 0, .candidate "rc-1.2.3-é"⟩ := by
    decide +kernel
  have hother : parse "0.2.9-other" = .ok ⟨0, 2, 9, 0, .other "other"⟩ := by decide +kernel
  obtain ⟨hparse, htext⟩ := text_round_trip hnamed
  refine ⟨hnamed, hparse, hother, fun hsame => ?_⟩
  exact absurd ((htext _ _ hother).mpr hsame) (by decide)

end Subprotocol.Release

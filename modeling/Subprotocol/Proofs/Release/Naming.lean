/-
Which texts name a release, and which release that is.

Where the name stands in a text and what it looks like are two questions.  It is the first word
of the text, or the first one behind the program's name; the word then has three or four numbers
between dots, and a tag behind a hyphen if there is one.  Both are stated by the parts of a text
and not by how it is cut.

The cuts are forced.  Numbers hold digits and dots only, so the first hyphen of a word is the one
in front of its tag, and the three kinds of tags differ in their first letter.  A trimmed text
does not end in a blank and the program's name does, so something is left behind the name when
it is dropped: only a text of blanks has no word.
-/
import Subprotocol.Proofs.Reading
import Subprotocol.Proofs.Text.Trimming
import Subprotocol.Release.Reader

namespace Subprotocol.Release

open Text

/-! ### What a name looks like -/

/-- `s` is a numeral of `n`.  Leading zeros do not matter. -/
def IsNumber (s : List Char) (n : Nat) : Prop :=
  Decimal.IsNumeral s ∧ Decimal.value s = n ∧ n ≤ largestNumber

/-- `s` has three or four numbers between dots.  A fourth one that is missing is zero. -/
inductive IsNumbers : (s : List Char) → (major minor micro patch : Nat) → Prop
  | three {parts : List (List Char)} {major minor micro : Nat}
      (h : List.Forall₂ IsNumber parts [major, minor, micro]) :
      IsNumbers (['.'].intercalate parts) major minor micro 0
  | four {parts : List (List Char)} {major minor micro patch : Nat}
      (h : List.Forall₂ IsNumber parts [major, minor, micro, patch]) :
      IsNumbers (['.'].intercalate parts) major minor micro patch

/-- `tag` announces a status by how it begins, and the status keeps all of it. -/
inductive Announces : (tag : List Char) → Status → Prop
  | alpha {tag : List Char} (h : "alpha".toList <+: tag) :
      Announces tag (.alpha (String.ofList tag))
  | beta {tag : List Char} (h : "beta".toList <+: tag) : Announces tag (.beta (String.ofList tag))
  | candidate {tag : List Char} (h : "rc".toList <+: tag) :
      Announces tag (.candidate (String.ofList tag))
  | other {tag : List Char} (alpha : ¬ "alpha".toList <+: tag) (beta : ¬ "beta".toList <+: tag)
      (candidate : ¬ "rc".toList <+: tag) : Announces tag (.other (String.ofList tag))

/-- The word `core` is a name of a release, which is final unless a tag follows a hyphen. -/
inductive Names : (core : List Char) → Release → Prop
  | untagged {numbers : List Char} {major minor micro patch : Nat}
      (h : IsNumbers numbers major minor micro patch) :
      Names numbers ⟨major, minor, micro, patch, .final⟩
  | tagged {numbers tag : List Char} {major minor micro patch : Nat} {status : Status}
      (h : IsNumbers numbers major minor micro patch) (nonempty : tag ≠ [])
      (announces : Announces tag status) :
      Names (numbers ++ '-' :: tag) ⟨major, minor, micro, patch, status⟩

/-- `core` is the first word of `s` once the blanks at the ends are off, and then the program's
name if the text begins with it. -/
def IsCore (s core : List Char) : Prop :=
  ∃ t u, IsTrimmed s t ∧ (t = program ++ u ∨ ¬ program <+: t ∧ u = t) ∧ IsFirst u core

/-! ### Where the name stands -/

variable {s t u core : List Char}

theorem dropProgram_eq_iff :
    dropProgram t = u ↔ t = program ++ u ∨ ¬ program <+: t ∧ u = t := by
  unfold dropProgram
  cases h : program.isPrefixOf? t with
  | none =>
      have hnot : ¬ program <+: t := by
        intro hbegins
        obtain ⟨v, hv⟩ := hbegins
        rw [List.isPrefixOf?_eq_some_iff_append_eq.mpr hv] at h
        exact Option.some_ne_none v h
      have hne : t ≠ program ++ u := fun ht => hnot ⟨u, ht.symm⟩
      simp [hnot, hne, eq_comm]
  | some v =>
      obtain rfl := List.isPrefixOf?_eq_some_iff_append_eq.mp h
      simp

theorem isCore_iff : IsCore s core ↔ core? s = some core := by
  unfold IsCore core?
  simp only [isTrimmed_iff, ← dropProgram_eq_iff, isFirst_iff, exists_and_left, exists_eq_left']

/-- Something is left behind the program's name, which ends in a blank. -/
private theorem exists_mem_dropProgram (hne : t ≠ [])
    (hlast : ∀ c ∈ t.getLast?, isBlank c = false) : ∃ c ∈ dropProgram t, isBlank c = false := by
  have hmem : t.getLast hne ∈ t.getLast? := List.getLast?_eq_some_getLast hne
  rcases dropProgram_eq_iff.mp (rfl : dropProgram t = dropProgram t) with ht | ⟨-, ht⟩
  · generalize dropProgram t = u at ht
    by_cases hu : u = []
    · have hspace : ' ' ∈ t.getLast? := by
        rw [ht, hu]
        rfl
      exact absurd (hlast ' ' hspace) (by decide)
    · refine ⟨u.getLast hu, List.getLast_mem hu, hlast _ ?_⟩
      rw [ht, List.getLast?_append, List.getLast?_eq_some_getLast hu]
      rfl
  · rw [ht]
    exact ⟨t.getLast hne, List.getLast_mem hne, hlast _ hmem⟩

/-- **Only a text of blanks has no word to judge.** -/
theorem core?_eq_none_iff : core? s = none ↔ ∀ c ∈ s, isBlank c = true := by
  unfold core?
  rw [List.head?_eq_none_iff, words_eq_nil_iff]
  constructor
  · intro h
    by_contra hnot
    obtain ⟨c, hc, hsolid⟩ :=
      exists_mem_dropProgram (mt trim_eq_nil_iff.mp hnot) (isTrimmed_trim s).last
    rw [h c hc] at hsolid
    exact Bool.noConfusion hsolid
  · intro h c hc
    have hnil : dropProgram [] = [] := dropProgram_eq_iff.mpr (Or.inr ⟨by decide, rfl⟩)
    rw [trim_of_blank h, hnil] at hc
    exact absurd hc List.not_mem_nil

/-- A text without blanks is its own word. -/
theorem core?_of_solid (hne : core ≠ []) (hsolid : ∀ c ∈ core, isBlank c = false) :
    core? core = some core := by
  have htrimmed : IsTrimmed core core :=
    ⟨fun c hc => hsolid c (List.mem_of_mem_head? hc),
      fun c hc => hsolid c (List.mem_of_mem_getLast? hc), [], [], by simp, by simp, by simp⟩
  have hbare : ¬ program <+: core := by
    intro hbegins
    have hspace := hsolid ' ' (hbegins.subset (by decide))
    exact absurd hspace (by decide)
  refine isCore_iff.mp ⟨core, core, htrimmed, Or.inr ⟨hbare, rfl⟩, [], [], by simp, by simp, ?_⟩
  exact ⟨hne, hsolid, by simp, by simp⟩

private theorem last_append (ht : ∀ c ∈ t.getLast?, isBlank c = false)
    (hu : ∀ c ∈ u.getLast?, isBlank c = false) : ∀ c ∈ (t ++ u).getLast?, isBlank c = false := by
  intro c hc
  rw [List.getLast?_append] at hc
  cases hlast : u.getLast? with
  | none =>
      rw [hlast] at hc
      exact ht c hc
  | some d =>
      rw [hlast] at hc
      exact hu c (hlast.trans hc)

/-- Behind the program's name the first word counts, whatever else follows. -/
theorem core?_of_program (hne : core ≠ []) (hsolid : ∀ c ∈ core, isBlank c = false)
    (extra : List Char) : core? (program ++ core ++ ' ' :: extra) = some core := by
  -- The blanks at the end are the only ones that are dropped, and the word comes in front of them.
  obtain ⟨rest, trail, hextra, htrail, hlast⟩ := exists_trail (' ' :: extra)
  have hhead : ∀ c ∈ (program ++ (core ++ rest)).head?, isBlank c = false := by
    intro c hc
    obtain rfl : 'T' = c := by simpa [program] using hc
    decide
  have hword : ∀ c ∈ (program ++ core).getLast?, isBlank c = false := by
    intro c hc
    rw [List.getLast?_append_of_ne_nil program hne] at hc
    exact hsolid c (List.mem_of_mem_getLast? hc)
  have htrimmed : IsTrimmed (program ++ core ++ ' ' :: extra) (program ++ (core ++ rest)) := by
    refine ⟨hhead, ?_, [], trail, by simp [hextra], by simp, htrail⟩
    rw [← List.append_assoc]
    exact last_append hword hlast
  have hbehind : ∀ c ∈ rest.head?, isBlank c = true := by
    intro c hc
    cases rest with
    | nil => simp at hc
    | cons b rest =>
        obtain ⟨rfl, -⟩ := List.cons_eq_cons.mp hextra
        obtain rfl : ' ' = c := by simpa using hc
        decide
  refine isCore_iff.mp ⟨_, core ++ rest, htrimmed, Or.inl rfl, [], rest, by simp, by simp, ?_⟩
  exact ⟨hne, hsolid, by simp, hbehind⟩

/-! ### Numbers and tags -/

theorem readNumbers_eq_some_iff {l : List Nat} :
    readNumbers s = some l ↔ List.Forall₂ IsNumber (s.splitOn '.') l := by
  simp only [readNumbers, Reading.mapM_eq_some_iff, Reading.toOption_eq_some_iff,
    Decimal.read_eq_ok_iff]
  exact Iff.rfl

private theorem isDigit_of_forall₂ {parts : List (List Char)} {l : List Nat}
    (h : List.Forall₂ IsNumber parts l) : ∀ part ∈ parts, ∀ c ∈ part, c.isDigit = true := by
  induction h with
  | nil => simp
  | cons hpart _ ih => exact List.forall_mem_cons.mpr ⟨hpart.1.2, ih⟩

/-- Numerals that are joined by dots are cut at the dots and nowhere else. -/
private theorem splitOn_numbers {parts : List (List Char)} {n : Nat} {l : List Nat}
    (h : List.Forall₂ IsNumber parts (n :: l)) :
    (['.'].intercalate parts).splitOn '.' = parts := by
  refine List.splitOn_intercalate '.' (fun part hpart hdot => ?_) ?_
  · exact absurd (isDigit_of_forall₂ h part hpart '.' hdot) (by decide)
  · intro hnil
    rw [hnil] at h
    nomatch h

variable {numbers tag : List Char} {major minor micro patch : Nat} {status : Status} {r : Release}

theorem IsNumbers.char (h : IsNumbers numbers major minor micro patch) :
    ∀ c ∈ numbers, c.isDigit = true ∨ c = '.' := by
  have hjoined : ∀ {parts : List (List Char)} {l : List Nat}, List.Forall₂ IsNumber parts l →
      ∀ c ∈ ['.'].intercalate parts, c.isDigit = true ∨ c = '.' := by
    intro parts l hparts c hc
    rcases mem_of_mem_intercalate hc with hdot | ⟨part, hpart, hc⟩
    · exact Or.inr hdot
    · exact Or.inl (isDigit_of_forall₂ hparts part hpart c hc)
  cases h with
  | three h => exact hjoined h
  | four h => exact hjoined h

theorem IsNumbers.not_mem_hyphen (h : IsNumbers numbers major minor micro patch) :
    '-' ∉ numbers := by
  intro hc
  rcases h.char '-' hc with hdigit | hdot
  · exact absurd hdigit (by decide)
  · exact absurd hdot (by decide)

/-- **Three or four numbers are read, and those that the text has.** -/
theorem ofNumbers_eq_some_iff :
    ofNumbers numbers status = some r ↔ IsNumbers numbers r.major r.minor r.micro r.patch ∧
      r.status = status := by
  constructor
  · intro h
    have hjoined : ['.'].intercalate (numbers.splitOn '.') = numbers := List.intercalate_splitOn '.'
    unfold ofNumbers at h
    split at h
    · rename_i hread
      obtain rfl := Option.some.inj h
      rw [← hjoined]
      exact ⟨.three (readNumbers_eq_some_iff.mp hread), rfl⟩
    · rename_i hread
      obtain rfl := Option.some.inj h
      rw [← hjoined]
      exact ⟨.four (readNumbers_eq_some_iff.mp hread), rfl⟩
    · simp at h
  · intro h
    obtain ⟨hnumbers, rfl⟩ := h
    obtain ⟨major, minor, micro, patch, status⟩ := r
    unfold ofNumbers
    cases hnumbers with
    | three h => rw [readNumbers_eq_some_iff.mpr (by rwa [splitOn_numbers h])]
    | four h => rw [readNumbers_eq_some_iff.mpr (by rwa [splitOn_numbers h])]

/-- A tag has one of two beginnings at most, unless the shorter begins the longer. -/
private theorem not_begins {short long : List Char} (h : short <+: tag) (hne : ¬ short <+: long)
    (hle : short.length ≤ long.length) : ¬ long <+: tag := by
  intro hlong
  exact hne (List.prefix_of_prefix_length_le h hlong hle)

/-- The beginnings that announce a status differ in their first letter. -/
theorem announces_iff : Announces tag status ↔ Status.ofTag tag = status := by
  unfold Status.ofTag
  simp only [List.isPrefixOf_iff_prefix]
  constructor
  · intro h
    cases h with
    | alpha h => rw [if_pos h]
    | beta h =>
        have halpha : ¬ "alpha".toList <+: tag := not_begins h (by decide) (by decide)
        rw [if_neg halpha, if_pos h]
    | candidate h =>
        have halpha : ¬ "alpha".toList <+: tag := not_begins h (by decide) (by decide)
        have hbeta : ¬ "beta".toList <+: tag := not_begins h (by decide) (by decide)
        rw [if_neg halpha, if_neg hbeta, if_pos h]
    | other alpha beta candidate => rw [if_neg alpha, if_neg beta, if_neg candidate]
  · intro h
    split at h
    · rename_i halpha
      exact h ▸ .alpha halpha
    · rename_i halpha
      split at h
      · rename_i hbeta
        exact h ▸ .beta hbeta
      · rename_i hbeta
        split at h
        · rename_i hcandidate
          exact h ▸ .candidate hcandidate
        · rename_i hcandidate
          exact h ▸ .other halpha hbeta hcandidate

/-- **A word is read as the release that it is the name of.** -/
theorem ofCore_eq_some_iff : ofCore core = some r ↔ Names core r := by
  constructor
  · intro h
    obtain ⟨major, minor, micro, patch, status⟩ := r
    unfold ofCore at h
    split at h
    · obtain ⟨hnumbers, rfl⟩ := ofNumbers_eq_some_iff.mp h
      exact .untagged hnumbers
    · rename_i hcut
      split at h
      · simp at h
      · rename_i hne
        obtain ⟨hnumbers, hstatus⟩ := ofNumbers_eq_some_iff.mp h
        rw [(cut?_eq_some_iff.mp hcut).1]
        exact .tagged hnumbers hne (announces_iff.mpr hstatus.symm)
  · intro h
    unfold ofCore
    cases h with
    | untagged h =>
        rw [cut?_eq_none_iff.mpr h.not_mem_hyphen]
        exact ofNumbers_eq_some_iff.mpr ⟨h, rfl⟩
    | tagged h nonempty announces =>
        rw [cut?_append h.not_mem_hyphen]
        simp only [if_neg nonempty]
        exact ofNumbers_eq_some_iff.mpr ⟨h, (announces_iff.mp announces).symm⟩

/-! ### Whole texts -/

variable {text text' : String}

theorem parse_eq_empty_iff :
    parse text = .error .empty ↔ ∀ c ∈ text.toList, isBlank c = true := by
  rw [← core?_eq_none_iff]
  unfold parse read
  cases core? text.toList with
  | none => simp
  | some core =>
      cases hread : ofCore core with
      | none => simp [hread]
      | some r => simp [hread]

theorem parse_eq_ok_iff_of_core (hcore : core? text.toList = some core) :
    parse text = .ok r ↔ Names core r := by
  rw [← ofCore_eq_some_iff, parse, read, hcore]
  cases hread : ofCore core with
  | none => simp [hread]
  | some r => simp [hread]

/-- A word that names no release is what the fault shows. -/
theorem parse_eq_error_iff_of_core (hcore : core? text.toList = some core) {fault : Fault} :
    parse text = .error fault ↔
      (¬ ∃ r, Names core r) ∧ fault = .malformed (String.ofList core) := by
  simp only [← ofCore_eq_some_iff, parse, read, hcore]
  cases hread : ofCore core with
  | none => simp [eq_comm]
  | some r => simp

/-- Nothing but the word counts. -/
theorem parse_eq_of_core (h : core? text.toList = core? text'.toList) :
    parse text = parse text' := by
  rw [parse, parse, read, read, h]

/-- **A text is read as the release that its word names.**

A text without a word is blank, and any other has exactly one.  What does not name a release is
shown as it stands.  Behind the program's name, whatever follows the word makes no difference. -/
theorem parse_names_exactly (text : String) :
    (parse text = .error .empty ↔ ∀ c ∈ text.toList, isBlank c = true) ∧
      ((∃ c ∈ text.toList, isBlank c = false) →
        ∃ core, (∀ w, IsCore text.toList w ↔ w = core) ∧
          (∀ r, parse text = .ok r ↔ Names core r) ∧
          ∀ fault, parse text = .error fault ↔
            (¬ ∃ r, Names core r) ∧ fault = .malformed (String.ofList core)) ∧
      ∀ word extra : String, word ≠ "" → (∀ c ∈ word.toList, isBlank c = false) →
        parse ("Tor " ++ word ++ " " ++ extra) = parse word := by
  refine ⟨parse_eq_empty_iff, ?_, ?_⟩
  · intro h
    obtain ⟨c, hc, hsolid⟩ := h
    have hsome : core? text.toList ≠ none := by
      intro hnone
      rw [core?_eq_none_iff.mp hnone c hc] at hsolid
      exact Bool.noConfusion hsolid
    obtain ⟨core, hcore⟩ := Option.ne_none_iff_exists'.mp hsome
    refine ⟨core, fun w => ?_, fun r => parse_eq_ok_iff_of_core hcore,
      fun fault => parse_eq_error_iff_of_core hcore⟩
    rw [isCore_iff, hcore, Option.some.injEq, eq_comm]
  · intro word extra hne hsolid
    have hword : word.toList ≠ [] := mt String.toList_eq_nil_iff.mp hne
    refine parse_eq_of_core ?_
    rw [core?_of_solid hword hsolid, ← core?_of_program hword hsolid extra.toList]
    simp [program]

/-- Leading zeros and a tag with hyphens; the program's name with nothing behind it; and that name
twice, of which the second is the word. -/
theorem parse_names_exactly_platform :
    parse "\tTor  00.2.9-rc-dev (git-1f) " = .ok ⟨0, 2, 9, 0, .candidate "rc-dev"⟩ ∧
      parse "Tor " = .error (.malformed "Tor") ∧
      parse ("Tor " ++ "Tor" ++ " " ++ "0.2.9") = parse "Tor" := by
  obtain ⟨core, hcore, hok, -⟩ := (parse_names_exactly "\tTor  00.2.9-rc-dev (git-1f) ").2.1
    ⟨'T', by decide, by decide⟩
  obtain rfl : "00.2.9-rc-dev".toList = core := (hcore _).mp (isCore_iff.mpr (by decide +kernel))
  obtain ⟨bare, hbare, -, herror⟩ := (parse_names_exactly "Tor ").2.1 ⟨'T', by decide, by decide⟩
  obtain rfl : "Tor".toList = bare := (hbare _).mp (isCore_iff.mpr (by decide +kernel))
  refine ⟨(hok _).mpr (ofCore_eq_some_iff.mp (by decide +kernel)), (herror _).mpr ⟨?_, rfl⟩, ?_⟩
  · intro h
    obtain ⟨r, hr⟩ := h
    have hnone : ofCore "Tor".toList = none := by decide +kernel
    exact Option.some_ne_none r ((ofCore_eq_some_iff.mpr hr).symm.trans hnone)
  · have hsolid : "Tor".toList.all (!isBlank ·) = true := by decide
    exact (parse_names_exactly "").2.2 "Tor" "0.2.9" (by decide) (by simpa using hsolid)

end Subprotocol.Release

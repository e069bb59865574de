/-
Which fault a refused list is refused for.

The fault is that of the leftmost defect, and what counts as one is stated without the readers.
A version is judged by its form and then by its size; a token by its low bound, its high bound
and their order; an entry by the number of its `=`, its name, whether its spec holds anything,
and then by the first of its tokens that has a fault.  A list has the fault of its first chunk
that is no entry.

Each relation says in its hypotheses that whatever comes earlier is in order.  So a piece of
text has one fault at most, and since the readers look at the parts in just this order, it is
the one that they report.  All that is left to be checked is that a reader hands on the first
failure of those it calls, which is `Reading.mapM_eq_error_iff` for the rows.
-/
import Subprotocol.Proofs.Listing.Grammar

namespace Subprotocol

namespace Listing

/-- What is wrong with `s` as a version. -/
inductive VersionFault : (s : List Char) → Fault → Prop
  | badNumber {s : List Char} (form : ¬ Decimal.IsNumeral s) :
      VersionFault s (.malformed (.badNumber (String.ofList s)))
  | outOfRange {s : List Char} (numeral : Decimal.IsNumeral s)
      (large : lastVersion < Decimal.value s) : VersionFault s (.outOfRange (String.ofList s))

/-- What is wrong with `token`, from left to right.  The order of the bounds comes last. -/
inductive TokenFault : (token : List Char) → Fault → Prop
  | single {s : List Char} {fault : Fault} (whole : '-' ∉ s) (h : VersionFault s fault) :
      TokenFault s fault
  | low {before after : List Char} {fault : Fault} (first : '-' ∉ before)
      (h : VersionFault before fault) : TokenFault (before ++ '-' :: after) fault
  | high {before after : List Char} {low : Nat} {fault : Fault} (hlow : IsVersion before low)
      (h : VersionFault after fault) : TokenFault (before ++ '-' :: after) fault
  | inverted {before after : List Char} {low high : Nat} (hlow : IsVersion before low)
      (hhigh : IsVersion after high) (h : high < low) :
      TokenFault (before ++ '-' :: after) (.inverted low high)

/-- What is wrong with the entry `w`.  Its tokens come last, the first one of them first. -/
inductive EntryFault : (w : List Char) → Fault → Prop
  | missingEquals {w : List Char} (absent : w.count '=' = 0) :
      EntryFault w (.malformed (.missingEquals (String.ofList w)))
  | repeatedEquals {w : List Char} (repeated : 1 < w.count '=') :
      EntryFault w (.malformed (.repeatedEquals (String.ofList w)))
  | badName {w spec : List Char} {name : String} (once : w.count '=' = 1)
      (form : w = name.toList ++ '=' :: spec) (h : ¬ ValidName name) :
      EntryFault w (.malformed (.badName name))
  | noVersions {name : String} (validName : ValidName name) :
      EntryFault (name.toList ++ ['=']) (.malformed (.noVersions name))
  | token {w spec t : List Char} {name : String} {before after : List (List Char)} {fault : Fault}
      (once : w.count '=' = 1) (form : w = name.toList ++ '=' :: spec)
      (validName : ValidName name) (nonempty : spec ≠ [])
      (row : spec.splitOn ',' = before ++ t :: after)
      (first : ∀ x ∈ before, ∃ low high, IsToken x low high) (h : TokenFault t fault) :
      EntryFault w fault

/-- `t` is a token of the entry `w`. -/
def IsTokenOf (t w : List Char) : Prop :=
  ∃ name spec, w = name ++ '=' :: spec ∧ w.count '=' = 1 ∧ t ∈ spec.splitOn ','

/-- `d` stands in `t` as a bound: alone, in front of the hyphen, or behind it. -/
inductive IsBoundOf : (d t : List Char) → Prop
  | single {d : List Char} (whole : '-' ∉ d) : IsBoundOf d d
  | low {d after : List Char} (first : '-' ∉ d) : IsBoundOf d (d ++ '-' :: after)
  | high {d before : List Char} (first : '-' ∉ before) : IsBoundOf d (before ++ '-' :: d)

end Listing

open Listing

variable {fault : Listing.Fault}

/-! ### Versions -/

theorem readVersion_eq_error_iff {s : List Char} :
    readVersion s = .error fault ↔ VersionFault s fault := by
  constructor
  · intro h
    unfold readVersion Decimal.read at h
    by_cases hs : Decimal.IsNumeral s
    · by_cases hv : Decimal.value s ≤ lastVersion
      · simp [hs, hv] at h
      · simp only [hs, hv, if_true, if_false, Except.error.injEq] at h
        rw [← h]
        exact .outOfRange hs (by omega)
    · simp only [hs, if_false, Except.error.injEq] at h
      rw [← h]
      exact .badNumber hs
  · intro h
    unfold readVersion Decimal.read
    cases h with
    | badNumber form => simp [form]
    | outOfRange numeral large => simp [numeral, Nat.not_le.mpr large]

/-! ### Tokens -/

/-- Versions are never too large for the bounds of a span, so only their order can be wrong. -/
theorem Span.between_eq_error_iff {low high : Nat} (hbounded : high ≤ lastVersion) :
    Span.between low high = .error fault ↔ high < low ∧ fault = .inverted low high := by
  unfold Span.between Span.ofBounds
  by_cases hordered : low ≤ high
  · simp [hordered, hbounded, Nat.not_lt.mpr hordered]
  · simp [hordered, Nat.lt_of_not_le hordered, eq_comm]

/-- **A token is refused for its fault.** -/
theorem Span.read_eq_error_iff {t : List Char} :
    Span.read t = .error fault ↔ TokenFault t fault := by
  constructor
  · intro h
    rw [Span.read] at h
    split at h
    · rename_i hcut
      have hwhole := Text.cut?_eq_none_iff.mp hcut
      rcases Reading.bind_eq_error_iff.mp h with hv | ⟨v, hv, hspan⟩
      · exact .single hwhole (readVersion_eq_error_iff.mp hv)
      · have hbounded := (readVersion_eq_ok_iff.mp hv).2.2
        obtain ⟨hlt, -⟩ := (Span.between_eq_error_iff hbounded).mp hspan
        exact absurd hlt (Nat.lt_irrefl v)
    · rename_i before after hcut
      obtain ⟨rfl, hfirst⟩ := Text.cut?_eq_some_iff.mp hcut
      rcases Reading.bind_eq_error_iff.mp h with hlow | ⟨low, hlow, h⟩
      · exact .low hfirst (readVersion_eq_error_iff.mp hlow)
      have hlow := readVersion_eq_ok_iff.mp hlow
      rcases Reading.bind_eq_error_iff.mp h with hhigh | ⟨high, hhigh, hspan⟩
      · exact .high hlow (readVersion_eq_error_iff.mp hhigh)
      have hhigh := readVersion_eq_ok_iff.mp hhigh
      obtain ⟨hlt, rfl⟩ := (Span.between_eq_error_iff hhigh.2.2).mp hspan
      exact .inverted hlow hhigh hlt
  · intro h
    rw [Span.read]
    cases h with
    | single whole h =>
        rw [Text.cut?_eq_none_iff.mpr whole]
        exact Reading.bind_eq_error_iff.mpr (Or.inl (readVersion_eq_error_iff.mpr h))
    | low first h =>
        rw [Text.cut?_append first]
        exact Reading.bind_eq_error_iff.mpr (Or.inl (readVersion_eq_error_iff.mpr h))
    | high hlow h =>
        rw [Text.cut?_append (not_mem_of_isVersion hlow)]
        refine Reading.bind_eq_error_iff.mpr (Or.inr ⟨_, readVersion_eq_ok_iff.mpr hlow, ?_⟩)
        exact Reading.bind_eq_error_iff.mpr (Or.inl (readVersion_eq_error_iff.mpr h))
    | inverted hlow hhigh h =>
        rw [Text.cut?_append (not_mem_of_isVersion hlow)]
        refine Reading.bind_eq_error_iff.mpr (Or.inr ⟨_, readVersion_eq_ok_iff.mpr hlow, ?_⟩)
        refine Reading.bind_eq_error_iff.mpr (Or.inr ⟨_, readVersion_eq_ok_iff.mpr hhigh, ?_⟩)
        exact (Span.between_eq_error_iff hhigh.2.2).mpr ⟨h, rfl⟩

theorem Span.exists_read_iff {t : List Char} :
    (∃ s, Span.read t = .ok s) ↔ ∃ low high, IsToken t low high := by
  constructor
  · intro h
    obtain ⟨s, hs⟩ := h
    exact ⟨s.low, s.high, Span.read_eq_ok_iff.mp hs⟩
  · intro h
    obtain ⟨low, high, ht⟩ := h
    exact ⟨⟨low, high, ht.ordered, ht.bounded⟩, Span.read_eq_ok_iff.mpr ht⟩

/-- A spec is refused for the first of its tokens that has a fault. -/
theorem Spans.read_eq_error_iff {spec : List Char} :
    Spans.read spec = .error fault ↔ ∃ before t after, spec.splitOn ',' = before ++ t :: after ∧
      (∀ x ∈ before, ∃ low high, IsToken x low high) ∧ TokenFault t fault := by
  simp only [Spans.read, Reading.mapM_eq_error_iff, Span.exists_read_iff, Span.read_eq_error_iff]

/-! ### Entries

An entry has no `=`, or several of them, or just one.  Only in the last case is there anything
else to look at.
-/

variable {w before spec : List Char}

/-- A single `=` has none on either side. -/
private theorem not_mem_of_once (once : w.count '=' = 1) (form : w = before ++ '=' :: spec) :
    '=' ∉ before ∧ '=' ∉ spec := by
  rw [form, List.count_append, List.count_cons_self] at once
  exact ⟨List.count_eq_zero.mp (by omega), List.count_eq_zero.mp (by omega)⟩

private theorem Entry.read_of_absent (absent : w.count '=' = 0) :
    Entry.read w = .error (.malformed (.missingEquals (String.ofList w))) := by
  rw [Entry.read, Text.cut?_eq_none_iff.mpr (List.count_eq_zero.mp absent)]

private theorem Entry.read_of_repeated (repeated : 1 < w.count '=') :
    Entry.read w = .error (.malformed (.repeatedEquals (String.ofList w))) := by
  cases hcut : Text.cut? '=' w with
  | none =>
      rw [List.count_eq_zero.mpr (Text.cut?_eq_none_iff.mp hcut)] at repeated
      omega
  | some parts =>
      obtain ⟨hw, hbefore⟩ := Text.cut?_eq_some_iff.mp hcut
      rw [hw, List.count_append, List.count_cons_self, List.count_eq_zero.mpr hbefore] at repeated
      have hspec : '=' ∈ parts.2 := List.count_pos_iff.mp (by omega)
      rw [Entry.read, hcut]
      exact if_pos hspec

private theorem Entry.read_of_once (hbefore : '=' ∉ before) (hspec : '=' ∉ spec) :
    Entry.read (before ++ '=' :: spec) =
      if ¬ ValidName (String.ofList before) then
        .error (.malformed (.badName (String.ofList before)))
      else if spec = [] then .error (.malformed (.noVersions (String.ofList before)))
      else (Spans.read spec).map fun spans => ⟨String.ofList before, Spans.ofList spans⟩ := by
  rw [Entry.read, Text.cut?_append hbefore]
  exact if_neg hspec

/-- **An entry is refused for its fault.** -/
theorem Entry.read_eq_error_iff : Entry.read w = .error fault ↔ EntryFault w fault := by
  constructor
  · intro h
    obtain absent | once | repeated : w.count '=' = 0 ∨ w.count '=' = 1 ∨ 1 < w.count '=' := by
      omega
    · rw [Entry.read_of_absent absent, Except.error.injEq] at h
      rw [← h]
      exact .missingEquals absent
    · have hmem : '=' ∈ w := List.count_pos_iff.mp (by omega)
      obtain ⟨before, spec, form⟩ := List.append_of_mem hmem
      obtain ⟨hbefore, hspec⟩ := not_mem_of_once once form
      rw [form, Entry.read_of_once hbefore hspec] at h
      rw [← String.toList_ofList (l := before)] at form
      by_cases hname : ValidName (String.ofList before)
      · rw [if_neg (not_not.mpr hname)] at h
        by_cases hempty : spec = []
        · rw [if_pos hempty, Except.error.injEq] at h
          rw [← h, form, hempty]
          exact .noVersions hname
        · rw [if_neg hempty, Reading.map_eq_error_iff, Spans.read_eq_error_iff] at h
          obtain ⟨earlier, t, later, row, first, h⟩ := h
          exact .token once form hname hempty row first h
      · rw [if_pos hname, Except.error.injEq] at h
        rw [← h]
        exact .badName once form hname
    · rw [Entry.read_of_repeated repeated, Except.error.injEq] at h
      rw [← h]
      exact .repeatedEquals repeated
  · intro h
    cases h with
    | missingEquals absent => exact Entry.read_of_absent absent
    | repeatedEquals repeated => exact Entry.read_of_repeated repeated
    | badName once form hname =>
        obtain ⟨hbefore, hspec⟩ := not_mem_of_once once form
        rw [form, Entry.read_of_once hbefore hspec, String.ofList_toList, if_pos hname]
    | noVersions validName =>
        rw [Entry.read_of_once validName.not_mem_equals List.not_mem_nil, String.ofList_toList,
          if_neg (not_not.mpr validName), if_pos rfl]
    | token once form validName nonempty row first h =>
        obtain ⟨hbefore, hspec⟩ := not_mem_of_once once form
        rw [form, Entry.read_of_once hbefore hspec, String.ofList_toList,
          if_neg (not_not.mpr validName), if_neg nonempty, Reading.map_eq_error_iff]
        exact Spans.read_eq_error_iff.mpr ⟨_, _, _, row, first, h⟩

/-! ### What a fault says -/

namespace Listing

/-- A number that is too large is one of the bounds of a token, as it is written there. -/
theorem TokenFault.bound_of_outOfRange {t : List Char} {d : String}
    (h : TokenFault t (.outOfRange d)) :
    Decimal.IsNumeral d.toList ∧ lastVersion < Decimal.value d.toList ∧ IsBoundOf d.toList t := by
  cases h with
  | single whole h =>
      cases h with
      | outOfRange numeral large =>
          rw [String.toList_ofList]
          exact ⟨numeral, large, .single whole⟩
  | low first h =>
      cases h with
      | outOfRange numeral large =>
          rw [String.toList_ofList]
          exact ⟨numeral, large, .low first⟩
  | high hlow h =>
      cases h with
      | outOfRange numeral large =>
          rw [String.toList_ofList]
          exact ⟨numeral, large, .high (not_mem_of_isVersion hlow)⟩

/-- Bounds that are inverted are the two bounds of a token. -/
theorem TokenFault.bounds_of_inverted {t : List Char} {low high : Nat}
    (h : TokenFault t (.inverted low high)) :
    high < low ∧ ∃ before after, t = before ++ '-' :: after ∧ IsVersion before low ∧
      IsVersion after high := by
  cases h with
  | single _ h => cases h
  | low _ h => cases h
  | high _ h => cases h
  | inverted hlow hhigh h => exact ⟨h, _, _, rfl, hlow, hhigh⟩

/-- A fault that is not one of form lies in a token. -/
theorem EntryFault.exists_token (h : EntryFault w fault) :
    (∃ cause, fault = .malformed cause) ∨ ∃ t, IsTokenOf t w ∧ TokenFault t fault := by
  cases h with
  | missingEquals => exact Or.inl ⟨_, rfl⟩
  | repeatedEquals => exact Or.inl ⟨_, rfl⟩
  | badName => exact Or.inl ⟨_, rfl⟩
  | noVersions => exact Or.inl ⟨_, rfl⟩
  | token once form _ _ row _ h =>
      refine Or.inr ⟨_, ⟨_, _, form, once, ?_⟩, h⟩
      rw [row]
      simp

theorem TokenFault.ne_empty {t : List Char} (h : TokenFault t fault) : fault ≠ .empty := by
  cases h with
  | single _ h => cases h <;> simp
  | low _ h => cases h <;> simp
  | high _ h => cases h <;> simp
  | inverted => simp

theorem EntryFault.ne_empty (h : EntryFault w fault) : fault ≠ .empty := by
  rcases h.exists_token with ⟨cause, rfl⟩ | ⟨t, -, ht⟩
  · simp
  · exact ht.ne_empty

end Listing

/-! ### Lists -/

namespace Capabilities

open Text

variable {s : String}

/-- A list is refused for the first of its words that is refused. -/
theorem parse_eq_error_iff :
    parse s = .error fault ↔ ∃ before w after, words s.toList = before ++ w :: after ∧
      (∀ x ∈ before, ∃ e, Entry.read x = .ok e) ∧ Entry.read w = .error fault := by
  unfold parse read readEntries
  rw [Reading.bind_eq_error_iff, Reading.mapM_eq_error_iff]
  simp [pure, Except.pure]

/-- A list is refused for the leftmost of its chunks that is refused. -/
theorem parse_eq_error_iff_isChunkAt :
    parse s = .error fault ↔ ∃ front w rest, s.toList = front ++ w ++ rest ∧
      IsChunkAt front w rest ∧ (∀ x, IsChunk front x → ∃ e, Entry.read x = .ok e) ∧
      Entry.read w = .error fault := by
  simp only [parse_eq_error_iff, ← mem_words_iff]
  constructor
  · intro h
    obtain ⟨before, w, after, hwords, hbefore, hw⟩ := h
    obtain ⟨front, rest, hs, hchunk, rfl, -⟩ := exists_isChunkAt hwords
    exact ⟨front, w, rest, hs, hchunk, hbefore, hw⟩
  · intro h
    obtain ⟨front, w, rest, hs, hchunk, hfront, hw⟩ := h
    refine ⟨words front, w, words rest, ?_, hfront, hw⟩
    rw [hs, hchunk.words_eq]

/-- What is behind a blank comes too late to matter. -/
theorem parse_append_of_error {blank : Char} (hblank : isBlank blank = true)
    (h : parse s = .error fault) (t : String) :
    parse (s ++ String.singleton blank ++ t) = .error fault := by
  obtain ⟨before, w, after, hwords, hbefore, hw⟩ := parse_eq_error_iff.mp h
  refine parse_eq_error_iff.mpr ⟨before, w, after ++ words t.toList, ?_, hbefore, hw⟩
  rw [String.toList_append, String.toList_append, String.toList_singleton, List.append_assoc,
    List.singleton_append, words_append_blank hblank, hwords, List.append_assoc, List.cons_append]

theorem exists_token_of_parse (h : parse s = .error fault) :
    (∃ cause, fault = .malformed cause) ∨
      ∃ w t, IsChunk s.toList w ∧ IsTokenOf t w ∧ TokenFault t fault := by
  obtain ⟨before, w, after, hwords, -, hw⟩ := parse_eq_error_iff.mp h
  have hchunk : IsChunk s.toList w := mem_words_iff.mp (by rw [hwords]; simp)
  rcases (Entry.read_eq_error_iff.mp hw).exists_token with hform | ⟨t, htoken, ht⟩
  · exact Or.inl hform
  · exact Or.inr ⟨w, t, hchunk, htoken, ht⟩

/-- **A list is refused for its leftmost defect**, whatever comes behind it.  Within a chunk the
form of the entry is judged before its tokens, and these from left to right.  A number that is
too large, and bounds that are inverted, stand in the list as they are reported. -/
theorem parse_refuses_leftmost (s : String) :
    (∀ fault, parse s = .error fault ↔ ∃ front w rest, s.toList = front ++ w ++ rest ∧
      IsChunkAt front w rest ∧ (∀ x, IsChunk front x → ∃ e, Entry.read x = .ok e) ∧
      Entry.read w = .error fault) ∧
    (∀ fault blank t, parse s = .error fault → isBlank blank = true →
      parse (s ++ String.singleton blank ++ t) = .error fault) ∧
    (∀ w fault, Entry.read w = .error fault ↔ EntryFault w fault) ∧
    (∀ d, parse s = .error (.outOfRange d) →
      Decimal.IsNumeral d.toList ∧ lastVersion < Decimal.value d.toList ∧
      ∃ w t, IsChunk s.toList w ∧ IsTokenOf t w ∧ IsBoundOf d.toList t) ∧
    (∀ low high, parse s = .error (.inverted low high) →
      high < low ∧ ∃ w t before after, IsChunk s.toList w ∧ IsTokenOf t w ∧
        t = before ++ '-' :: after ∧ IsVersion before low ∧ IsVersion after high) := by
  refine ⟨fun fault => parse_eq_error_iff_isChunkAt,
    fun fault blank t h hblank => parse_append_of_error hblank h t,
    fun w fault => Entry.read_eq_error_iff, fun d h => ?_, fun low high h => ?_⟩
  · obtain ⟨w, t, hchunk, htoken, ht⟩ := (exists_token_of_parse h).resolve_left (by simp)
    obtain ⟨numeral, large, hbound⟩ := ht.bound_of_outOfRange
    exact ⟨numeral, large, w, t, hchunk, htoken, hbound⟩
  · obtain ⟨w, t, hchunk, htoken, ht⟩ := (exists_token_of_parse h).resolve_left (by simp)
    obtain ⟨hlt, before, after, hform, hlow, hhigh⟩ := ht.bounds_of_inverted
    exact ⟨hlt, w, t, before, after, hchunk, htoken, hform, hlow, hhigh⟩

/-- Of the tokens of an entry the second one is refused, for its low bound.  The faults of its
high bound, of the third token and of the entries behind a newline come too late, and so does a
name that is no name in an entry with two `=`. -/
theorem parse_refuses_leftmost_of_many :
    parse ("Link=1 Cons=3,4294967296-x,3-1" ++ String.singleton '\n' ++ "Cons= Desc") =
      .error (.outOfRange "4294967296") ∧
    (∃ w t, IsChunk "Link=1 Cons=3,4294967296-x,3-1".toList w ∧ IsTokenOf t w ∧
      IsBoundOf "4294967296".toList t) ∧
    EntryFault "Co-ns=2=".toList (.malformed (.repeatedEquals "Co-ns=2=")) := by
  have hfault : parse "Link=1 Cons=3,4294967296-x,3-1" = .error (.outOfRange "4294967296") := by
    decide +kernel
  obtain ⟨-, happended, hentries, hlarge, -⟩ :=
    parse_refuses_leftmost "Link=1 Cons=3,4294967296-x,3-1"
  refine ⟨happended _ '\n' "Cons= Desc" hfault (by decide), (hlarge _ hfault).2.2, ?_⟩
  exact (hentries _ _).mp (by decide +kernel)

end Capabilities

end Subprotocol

/-
Canonical texts are read back.

The canonical text of well formed capabilities is a list that describes just them.  Level
by level, what the writer writes is what the grammar calls a span, an entry and a list, so
the reader's side needs no argument of its own: it reads whatever the grammar allows.

One thing is left.  The readers rebuild what they return by inserting span after span and
entry after entry.  Inserting into nothing what is separated and ascending already gives it
back, since both sides are well formed and have the same view.
-/
import Subprotocol.Listing.Canonical
import Subprotocol.Proofs.Listing.Acceptance

namespace Subprotocol

open Listing Text

/-! ### Characters of written forms -/

theorem ValidName.solid {name : String} (h : ValidName name) :
    ∀ c ∈ name.toList, isBlank c = false := by
  intro c hc
  have hchar := h.2 c hc
  simp only [isNameChar, Bool.and_eq_true, Bool.not_eq_true'] at hchar
  exact hchar.2

/-! ### What is written is in the grammar -/

theorem isVersion_digits {v : Nat} (h : v ≤ lastVersion) : IsVersion (Decimal.digits v) v :=
  ⟨Decimal.isNumeral_digits v, Decimal.value_digits v, h⟩

theorem Span.isToken_chars (s : Span) : IsToken s.chars s.low s.high := by
  have hordered := s.ordered
  have hbounded := s.bounded
  rw [Span.chars]
  split
  · rename_i hsingle
    rw [← show s.low = s.high from hsingle]
    exact IsToken.single (isVersion_digits (by omega))
  · exact IsToken.bounds (isVersion_digits (by omega)) (isVersion_digits hbounded) hordered

private theorem not_mem_equals_chars (l : Spans) : '=' ∉ l.chars := by
  intro hc
  rcases mem_of_mem_intercalate hc with hcomma | ⟨t, ht, hc⟩
  · exact absurd hcomma (by decide)
  · obtain ⟨s, -, hs⟩ := List.mem_map.mp ht
    rw [← hs] at hc
    rcases s.isToken_chars.char _ hc with hdigit | hhyphen
    · exact absurd hdigit (by decide)
    · exact absurd hhyphen (by decide)

private theorem solid_chars (l : Spans) : ∀ c ∈ l.chars, isBlank c = false := by
  intro c hc
  rcases mem_of_mem_intercalate hc with hcomma | ⟨t, ht, hc⟩
  · rw [hcomma]
    decide
  · obtain ⟨s, -, hs⟩ := List.mem_map.mp ht
    rw [← hs] at hc
    rcases s.isToken_chars.char _ hc with hdigit | hhyphen
    · exact isBlank_of_isDigit hdigit
    · rw [hhyphen]
      decide

namespace Entry

theorem isEntry_chars {e : Entry} (he : e.WellFormed) (hne : ¬ e.IsEmpty) :
    IsEntry e.chars e.name (e.spans.map Span.chars) where
  validName := he.name
  form := rfl
  once := by
    rw [Entry.chars, List.count_append, List.count_cons_self,
      List.count_eq_zero.mpr he.name.not_mem_equals,
      List.count_eq_zero.mpr (not_mem_equals_chars e.spans)]
  nonempty := by
    intro hnil
    exact hne (List.map_eq_nil_iff.mp hnil)
  token := by
    intro t ht
    obtain ⟨s, -, hs⟩ := List.mem_map.mp ht
    exact ⟨s.low, s.high, hs ▸ s.isToken_chars⟩

theorem chars_ne_nil (e : Entry) : e.chars ≠ [] := by
  rw [Entry.chars]
  simp

theorem solid_chars {e : Entry} (he : e.WellFormed) : ∀ c ∈ e.chars, isBlank c = false := by
  intro c hc
  rcases List.mem_append.mp hc with hname | hspec
  · exact he.name.solid c hname
  rcases List.mem_cons.mp hspec with hequals | hspec
  · rw [hequals]
    decide
  · exact Subprotocol.solid_chars e.spans c hspec

end Entry

/-! ### What is written is read back -/

theorem Entry.read_chars {e : Entry} (he : e.WellFormed) (hne : ¬ e.IsEmpty) :
    Entry.read e.chars = .ok e := by
  refine Entry.read_eq_ok_iff.mpr ⟨e.spans.map Span.chars, e.spans, isEntry_chars he hne, ?_,
    (Spans.ofList_eq_self he.separated).symm⟩
  exact List.forall₂_map_left_iff.mpr (List.forall₂_same.mpr fun s _ => s.isToken_chars)

/-- Joined by blanks, words stay the words they are. -/
theorem Text.words_intercalate {sep : Char} (hsep : isBlank sep = true) {ws : List (List Char)}
    (h : ∀ w ∈ ws, w ≠ [] ∧ ∀ c ∈ w, isBlank c = false) :
    words ([sep].intercalate ws) = ws := by
  induction ws with
  | nil => exact words_nil
  | cons w ws ih =>
      obtain ⟨hne, hsolid⟩ := h w (by simp)
      cases ws with
      | nil => rw [List.intercalate_singleton, words_of_solid hne hsolid]
      | cons x ws =>
          have hcut : [sep].intercalate (w :: x :: ws) = w ++ sep :: [sep].intercalate (x :: ws) := by
            rw [List.intercalate_cons_cons, List.append_assoc]
            rfl
          rw [hcut, words_append_blank hsep, words_of_solid hne hsolid,
            ih fun y hy => h y (List.mem_cons_of_mem w hy)]
          rfl

namespace Capabilities

theorem WellFormed.readEntries_chars {c : Capabilities} (hc : c.WellFormed) :
    readEntries c.chars = .ok c.entries := by
  have hwords : words c.chars = c.entries.map Entry.chars := by
    refine words_intercalate (by decide) fun w hw => ?_
    obtain ⟨e, he, hchars⟩ := List.mem_map.mp hw
    rw [← hchars]
    exact ⟨e.chars_ne_nil, Entry.solid_chars (hc.entry e he)⟩
  rw [readEntries, hwords, Reading.mapM_eq_ok_iff, List.forall₂_map_left_iff, List.forall₂_same]
  exact fun e he => Entry.read_chars (hc.entry e he) (hc.nonempty e he)

/-- The canonical text of well formed capabilities lists just them. -/
theorem WellFormed.parse_encode {c : Capabilities} (hc : c.WellFormed) :
    parse c.encode = .ok c := by
  refine parse_eq_ok_iff.mpr ⟨c.entries, ?_, hc.ofEntries_eq_self.symm⟩
  rw [encode, String.toList_ofList]
  exact hc.readEntries_chars

theorem WellFormed.encode_injective {a b : Capabilities} (ha : a.WellFormed) (hb : b.WellFormed)
    (h : a.encode = b.encode) : a = b := by
  have hparse := ha.parse_encode
  rw [h, hb.parse_encode] at hparse
  exact (Except.ok.inj hparse).symm

/-- The canonical text of well formed capabilities is canonical. -/
theorem WellFormed.isCanonical_encode {c : Capabilities} (hc : c.WellFormed) :
    IsCanonical c.encode := by
  rw [IsCanonical, canonical, hc.parse_encode]
  rfl

end Capabilities

end Subprotocol

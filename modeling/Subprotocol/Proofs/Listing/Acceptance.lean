/-
Which texts are protocol lists, and what they list.

`Capabilities.parse` accepts a text exactly when each of its chunks is an entry of the
grammar.  What it then returns lists a version under a name exactly when some chunk is an
entry of that name with a token that covers the version, however often the name comes up
and however the tokens overlap.

The readers of the parts are settled in `Proofs/Listing/Grammar.lean`, and what they refuse in
`Proofs/Listing/Faults.lean`.  What is added here is that a row of entries is read when each
entry is, that words are chunks, and that `ofEntries` loses and invents nothing.
-/
import Subprotocol.Proofs.Capabilities.View
import Subprotocol.Proofs.Listing.Faults

namespace Subprotocol

open Listing Text

/-- Some chunk of `s` is an entry called `name` that covers `v`. -/
def Listing.Describes (s : List Char) (name : String) (v : Nat) : Prop :=
  ∃ w tokens, IsChunk s w ∧ IsEntry w name tokens ∧ Covers tokens v

theorem Listing.IsEntry.exists_covers {w : List Char} {name : String} {tokens : List (List Char)}
    (h : IsEntry w name tokens) : ∃ v, Covers tokens v := by
  obtain ⟨t, rest, hcons⟩ := List.exists_cons_of_ne_nil h.nonempty
  have ht : t ∈ tokens := by simp [hcons]
  obtain ⟨low, high, htoken⟩ := h.token t ht
  exact ⟨low, t, ht, low, high, htoken, Nat.le_refl _, htoken.ordered⟩

namespace Capabilities

/-! ### Lists that are read -/

theorem parse_eq_ok_iff {s : String} {c : Capabilities} :
    parse s = .ok c ↔ ∃ entries, readEntries s.toList = .ok entries ∧ c = ofEntries entries := by
  rw [parse, read, Reading.bind_eq_ok_iff]
  simp only [Reading.pure_eq_ok_iff]

theorem exists_parse_iff {s : String} :
    (∃ c, parse s = .ok c) ↔ ∀ w ∈ words s.toList, ∃ e, Entry.read w = .ok e := by
  rw [← Reading.exists_mapM_eq_ok_iff]
  constructor
  · intro h
    obtain ⟨c, hc⟩ := h
    obtain ⟨entries, hentries, -⟩ := parse_eq_ok_iff.mp hc
    exact ⟨entries, hentries⟩
  · intro h
    obtain ⟨entries, hentries⟩ := h
    exact ⟨ofEntries entries, parse_eq_ok_iff.mpr ⟨entries, hentries, rfl⟩⟩

/-- A text is read when all its chunks are entries. -/
theorem exists_parse_iff_isEntry {s : String} :
    (∃ c, parse s = .ok c) ↔ ∀ w, IsChunk s.toList w → ∃ name tokens, IsEntry w name tokens := by
  rw [exists_parse_iff]
  constructor
  · intro h w hw
    obtain ⟨e, hread⟩ := h w (mem_words_iff.mpr hw)
    obtain ⟨tokens, hentry, -⟩ := exists_isEntry hread
    exact ⟨e.name, tokens, hentry⟩
  · intro h w hw
    obtain ⟨name, tokens, hentry⟩ := h w (mem_words_iff.mp hw)
    obtain ⟨e, hread, -⟩ := hentry.exists_read
    exact ⟨e, hread⟩

theorem wellFormed_of_readEntries {s : List Char} {entries : List Entry}
    (h : readEntries s = .ok entries) : ∀ e ∈ entries, e.WellFormed := by
  intro e he
  obtain ⟨w, -, hread⟩ := (Reading.mem_of_mapM h).mp he
  exact (Entry.wellFormed_of_read hread).1

theorem wellFormed_of_parse {s : String} {c : Capabilities} (h : parse s = .ok c) :
    c.WellFormed := by
  obtain ⟨entries, hentries, hc⟩ := parse_eq_ok_iff.mp h
  rw [hc]
  exact WellFormed.ofEntries (wellFormed_of_readEntries hentries)

/-- **A text that is read lists what it describes.** -/
theorem lists_iff_describes {s : String} {c : Capabilities} (h : parse s = .ok c) {name : String}
    {v : Nat} : c.Lists name v ↔ Describes s.toList name v := by
  obtain ⟨entries, hentries, hc⟩ := parse_eq_ok_iff.mp h
  rw [hc, lists_ofEntries]
  constructor
  · intro hlists
    obtain ⟨e, he, hname, hv⟩ := hlists
    obtain ⟨w, hw, hread⟩ := (Reading.mem_of_mapM hentries).mp he
    obtain ⟨tokens, hentry, hcovers⟩ := exists_isEntry hread
    rw [hname] at hentry
    exact ⟨w, tokens, mem_words_iff.mp hw, hentry, (hcovers v).mp hv⟩
  · intro hdescribes
    obtain ⟨w, tokens, hw, hentry, hv⟩ := hdescribes
    obtain ⟨e, hread, hname, hholds⟩ := hentry.exists_read
    refine ⟨e, (Reading.mem_of_mapM hentries).mpr ⟨w, mem_words_iff.mpr hw, hread⟩, hname, ?_⟩
    exact (hholds v).mpr hv

/-- The names are those of the chunks, since every entry covers something. -/
theorem mem_names_iff_isEntry {s : String} {c : Capabilities} (h : parse s = .ok c)
    {name : String} :
    name ∈ c.names ↔ ∃ w tokens, IsChunk s.toList w ∧ IsEntry w name tokens := by
  simp only [(wellFormed_of_parse h).mem_names_iff, lists_iff_describes h]
  constructor
  · intro hdescribes
    obtain ⟨v, w, tokens, hw, hentry, -⟩ := hdescribes
    exact ⟨w, tokens, hw, hentry⟩
  · intro hchunk
    obtain ⟨w, tokens, hw, hentry⟩ := hchunk
    obtain ⟨v, hv⟩ := hentry.exists_covers
    exact ⟨v, w, tokens, hw, hentry, hv⟩

theorem isEmpty_of_parse_iff {s : String} {c : Capabilities} (h : parse s = .ok c) :
    c.IsEmpty ↔ ∀ a ∈ s.toList, isBlank a = true := by
  rw [← words_eq_nil_iff, (wellFormed_of_parse h).isEmpty_iff, List.eq_nil_iff_forall_not_mem]
  constructor
  · intro hnone w hw
    obtain ⟨name, tokens, hentry⟩ := exists_parse_iff_isEntry.mp ⟨c, h⟩ w (mem_words_iff.mp hw)
    obtain ⟨v, hv⟩ := hentry.exists_covers
    exact hnone name v ((lists_iff_describes h).mpr ⟨w, tokens, mem_words_iff.mp hw, hentry, hv⟩)
  · intro hnone name v hlists
    obtain ⟨w, tokens, hw, -⟩ := (lists_iff_describes h).mp hlists
    exact hnone w (mem_words_iff.mpr hw)

/-! ### Lists that are refused -/

/-- A text that lists nothing is no fault of its own. -/
theorem parse_ne_empty (s : String) : parse s ≠ .error .empty := by
  intro h
  obtain ⟨before, w, after, -, -, hw⟩ := parse_eq_error_iff.mp h
  exact (Entry.read_eq_error_iff.mp hw).ne_empty rfl

theorem parseNonblank_of_blank {s : String} (h : ∀ a ∈ s.toList, isBlank a = true) :
    parseNonblank s = .error .empty := by
  have hread : ∀ w ∈ words s.toList, ∃ e, Entry.read w = .ok e := by
    intro w hw
    rw [words_eq_nil_iff.mpr h] at hw
    exact absurd hw List.not_mem_nil
  obtain ⟨c, hparse⟩ := exists_parse_iff.mpr hread
  rw [parseNonblank, hparse]
  exact if_pos ((isEmpty_of_parse_iff hparse).mpr h)

theorem parseNonblank_of_not_blank {s : String} (h : ¬ ∀ a ∈ s.toList, isBlank a = true) :
    parseNonblank s = parse s := by
  cases hparse : parse s with
  | error e =>
      rw [parseNonblank, hparse]
      rfl
  | ok c =>
      rw [parseNonblank, hparse]
      exact if_neg fun hempty => h ((isEmpty_of_parse_iff hparse).mp hempty)

theorem parseNonblank_eq_empty_iff {s : String} :
    parseNonblank s = .error .empty ↔ ∀ a ∈ s.toList, isBlank a = true := by
  constructor
  · intro h
    by_cases hblank : ∀ a ∈ s.toList, isBlank a = true
    · exact hblank
    · rw [parseNonblank_of_not_blank hblank] at h
      exact absurd h (parse_ne_empty s)
  · exact parseNonblank_of_blank

/-- **A text is accepted exactly when it is a list, and is read as what it lists.**  The
empty list is refused only where a list that lists nothing is a mistake. -/
theorem parse_accepts_exactly (s : String) :
    ((∃ c, parse s = .ok c) ↔
      ∀ w, IsChunk s.toList w → ∃ name tokens, IsEntry w name tokens) ∧
    (∀ c, parse s = .ok c →
      (∀ name v, c.supports name v = true ↔
        ∃ w tokens, IsChunk s.toList w ∧ IsEntry w name tokens ∧ Covers tokens v) ∧
      (∀ name, name ∈ c.names ↔
        ∃ w tokens, IsChunk s.toList w ∧ IsEntry w name tokens)) ∧
    (parseNonblank s = .error .empty ↔ ∀ a ∈ s.toList, isBlank a = true) ∧
    ((∃ a ∈ s.toList, isBlank a = false) → parseNonblank s = parse s) := by
  refine ⟨exists_parse_iff_isEntry, ?_, parseNonblank_eq_empty_iff, ?_⟩
  · intro c hparse
    refine ⟨fun name v => ?_, fun name => mem_names_iff_isEntry hparse⟩
    rw [(wellFormed_of_parse hparse).supports_iff_lists, lists_iff_describes hparse]
    rfl
  · intro h
    obtain ⟨a, ha, hblank⟩ := h
    refine parseNonblank_of_not_blank fun hall => ?_
    rw [hall a ha] at hblank
    exact Bool.noConfusion hblank

end Capabilities

end Subprotocol

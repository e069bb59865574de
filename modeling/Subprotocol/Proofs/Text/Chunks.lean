/-
The words of a text are its chunks.

A chunk is a piece without blanks that cannot be made longer: what stands before it
ends in a blank, if anything does, and what stands behind it starts with one.  This
says nothing about how the pieces are found, whereas `words` cuts at every blank and
throws the empty pieces away.

Both directions come down to a cut at one blank, for which `words_append_blank` is the
equation.  Going from words to chunks that needs an induction on the text, cut at its
first blank; `cut_induction` is that induction, and the other facts that look at a whole
text use it too.
-/
import Subprotocol.Text.Blank

namespace Subprotocol.Text

/-- `w` is a longest piece of `s` that holds something and no blank. -/
structure IsChunk (s w : List Char) : Prop where
  nonempty : w ≠ []
  solid : ∀ c ∈ w, isBlank c = false
  maximal : ∃ before after, s = before ++ w ++ after ∧
    (∀ c ∈ before.getLast?, isBlank c = true) ∧ (∀ c ∈ after.head?, isBlank c = true)

/-- `w` stands between `front` and `rest`, as a chunk of the text that they make up. -/
structure IsChunkAt (front w rest : List Char) : Prop where
  nonempty : w ≠ []
  solid : ∀ c ∈ w, isBlank c = false
  before : ∀ c ∈ front.getLast?, isBlank c = true
  behind : ∀ c ∈ rest.head?, isBlank c = true

/-- `w` is the first chunk of `s`. -/
def IsFirst (s w : List Char) : Prop :=
  ∃ gap rest, s = gap ++ w ++ rest ∧ (∀ c ∈ gap, isBlank c = true) ∧ IsChunkAt gap w rest

theorem isChunk_iff {s w : List Char} :
    IsChunk s w ↔ ∃ front rest, s = front ++ w ++ rest ∧ IsChunkAt front w rest := by
  constructor
  · intro h
    obtain ⟨front, rest, hs, hbefore, hbehind⟩ := h.maximal
    exact ⟨front, rest, hs, h.nonempty, h.solid, hbefore, hbehind⟩
  · intro h
    obtain ⟨front, rest, hs, hchunk⟩ := h
    exact ⟨hchunk.nonempty, hchunk.solid, front, rest, hs, hchunk.before, hchunk.behind⟩

/-! ### Cutting a text at its first blank -/

private theorem solid_or_cut (s : List Char) :
    (∀ c ∈ s, isBlank c = false) ∨
      ∃ w b t, (∀ c ∈ w, isBlank c = false) ∧ isBlank b = true ∧ s = w ++ b :: t := by
  induction s with
  | nil => exact Or.inl (by simp)
  | cons a s ih =>
      by_cases ha : isBlank a = true
      · exact Or.inr ⟨[], a, s, by simp, ha, rfl⟩
      · have ha' : isBlank a = false := by simpa using ha
        rcases ih with hs | ⟨w, b, t, hw, hb, hst⟩
        · refine Or.inl ?_
          intro c hc
          rcases List.mem_cons.mp hc with hca | hcs
          · rw [hca]
            exact ha'
          · exact hs c hcs
        · refine Or.inr ⟨a :: w, b, t, ?_, hb, by rw [hst]; rfl⟩
          intro c hc
          rcases List.mem_cons.mp hc with hca | hcw
          · rw [hca]
            exact ha'
          · exact hw c hcw

/-- What holds of texts without blanks, and passes from the part behind a text's first
blank to the text, holds of every text. -/
theorem cut_induction {motive : List Char → Prop}
    (solid : ∀ w, (∀ c ∈ w, isBlank c = false) → motive w)
    (cut : ∀ w b t, (∀ c ∈ w, isBlank c = false) → isBlank b = true → motive t →
      motive (w ++ b :: t)) (s : List Char) : motive s := by
  obtain ⟨n, hn⟩ : ∃ n, s.length = n := ⟨_, rfl⟩
  induction n using Nat.strongRecOn generalizing s with
  | _ n ih =>
      rcases solid_or_cut s with hs | ⟨w, b, t, hw, hb, hst⟩
      · exact solid s hs
      · have hlt : t.length < n := by
          rw [← hn, hst, List.length_append, List.length_cons]
          omega
        rw [hst]
        exact cut w b t hw hb (ih t.length hlt t rfl)

/-! ### Words are chunks -/

/-- A text without blanks is its own only word. -/
theorem words_of_solid {w : List Char} (hne : w ≠ []) (hw : ∀ c ∈ w, isBlank c = false) :
    words w = [w] := by
  rw [words, List.splitOnP_eq_singleton hw]
  simp [hne]

theorem words_cons_blank {c : Char} (hc : isBlank c = true) (s : List Char) :
    words (c :: s) = words s := by
  have hcut := words_append_blank hc [] s
  rwa [words_nil, List.nil_append, List.nil_append] at hcut

/-- A text may be cut in front of a blank. -/
theorem words_append_of_head? {s rest : List Char} (hrest : ∀ c ∈ rest.head?, isBlank c = true) :
    words (s ++ rest) = words s ++ words rest := by
  cases rest with
  | nil => rw [List.append_nil, words_nil, List.append_nil]
  | cons c rest =>
      have hc : isBlank c = true := hrest c rfl
      rw [words_append_blank hc, words_cons_blank hc]

/-- A text may be cut behind a blank. -/
theorem words_append_of_getLast? {front s : List Char}
    (hfront : ∀ c ∈ front.getLast?, isBlank c = true) :
    words (front ++ s) = words front ++ words s := by
  rcases List.eq_nil_or_concat front with hnil | ⟨init, c, hconcat⟩
  · rw [hnil, words_nil, List.nil_append, List.nil_append]
  · have hc : isBlank c = true := hfront c (by rw [hconcat]; simp)
    rw [hconcat, List.concat_eq_append, words_append_blank hc, words_nil, List.append_nil,
      List.append_assoc]
    exact words_append_blank hc init s

/-- A chunk is the word between those in front of it and those behind it. -/
theorem IsChunkAt.words_eq {front w rest : List Char} (h : IsChunkAt front w rest) :
    words (front ++ w ++ rest) = words front ++ w :: words rest := by
  rw [words_append_of_head? h.behind, words_append_of_getLast? h.before,
    words_of_solid h.nonempty h.solid, List.append_assoc, List.singleton_append]

/-- Where a word comes in the row of words is where it stands in the text. -/
theorem exists_isChunkAt {s w : List Char} {before after : List (List Char)}
    (h : words s = before ++ w :: after) :
    ∃ front rest, s = front ++ w ++ rest ∧ IsChunkAt front w rest ∧ words front = before ∧
      words rest = after := by
  induction s using cut_induction generalizing before with
  | solid u hu =>
      by_cases hne : u = []
      · rw [hne, words_nil] at h
        exact absurd h.symm (by simp)
      · rw [words_of_solid hne hu] at h
        obtain ⟨rfl, rfl, rfl⟩ : before = [] ∧ w = u ∧ after = [] := by
          cases before with
          | nil => simpa [eq_comm] using h
          | cons x before => simp at h
        exact ⟨[], [], by simp, ⟨hne, hu, by simp, by simp⟩, words_nil, words_nil⟩
  | cut u b t hu hb ih =>
      rw [words_append_blank hb] at h
      -- A word behind the blank stands behind what the cut puts in front of it.
      have hbehind : ∀ later, words t = later ++ w :: after → words u ++ later = before →
          ∃ front rest, u ++ b :: t = front ++ w ++ rest ∧ IsChunkAt front w rest ∧
            words front = before ∧ words rest = after := by
        intro later ht hlater
        obtain ⟨front, rest, rfl, hchunk, hfront, hrest⟩ := ih ht
        refine ⟨u ++ b :: front, rest, by simp, ⟨hchunk.nonempty, hchunk.solid, ?_, hchunk.behind⟩,
          by rw [words_append_blank hb, hfront, hlater], hrest⟩
        intro c hc
        rw [List.getLast?_append, List.getLast?_cons] at hc
        obtain rfl : front.getLast?.getD b = c := by simpa using hc
        cases hlast : front.getLast? with
        | none => exact hb
        | some d => exact hchunk.before d hlast
      by_cases hne : u = []
      · rw [hne, words_nil, List.nil_append] at h
        exact hbehind before h (by rw [hne, words_nil, List.nil_append])
      · rw [words_of_solid hne hu] at h
        cases before with
        | nil =>
            obtain ⟨rfl, ht⟩ := List.cons_eq_cons.mp h
            exact ⟨[], b :: t, by simp, ⟨hne, hu, by simp, by simpa using hb⟩, words_nil,
              (words_cons_blank hb t).trans ht⟩
        | cons x before =>
            obtain ⟨rfl, ht⟩ := List.cons_eq_cons.mp h
            exact hbehind before ht (by rw [words_of_solid hne hu, List.singleton_append])

/-- **The words of a text are its chunks.** -/
theorem mem_words_iff {s w : List Char} : w ∈ words s ↔ IsChunk s w := by
  rw [isChunk_iff]
  constructor
  · intro h
    obtain ⟨before, after, hwords⟩ := List.append_of_mem h
    obtain ⟨front, rest, hs, hchunk, -, -⟩ := exists_isChunkAt hwords
    exact ⟨front, rest, hs, hchunk⟩
  · intro h
    obtain ⟨front, rest, hs, hchunk⟩ := h
    rw [hs, hchunk.words_eq]
    simp

/-! ### What the words leave out -/

/-- The words hold every character but the blanks, in order. -/
theorem flatten_words (s : List Char) : (words s).flatten = s.filter (!isBlank ·) := by
  induction s using cut_induction with
  | solid w hw =>
      have hfilter : w.filter (!isBlank ·) = w :=
        List.filter_eq_self.mpr fun c hc => by simp [hw c hc]
      rw [hfilter]
      by_cases hne : w = []
      · simp [hne]
      · simp [words_of_solid hne hw]
  | cut w b t hw hb ih =>
      have hfilter : w.filter (!isBlank ·) = w :=
        List.filter_eq_self.mpr fun c hc => by simp [hw c hc]
      rw [words_append_blank hb, List.flatten_append, ih, List.filter_append, hfilter]
      by_cases hne : w = []
      · simp [hne, hb]
      · simp [words_of_solid hne hw, hb]

/-- Only a text of blanks has no words. -/
theorem words_eq_nil_iff {s : List Char} : words s = [] ↔ ∀ c ∈ s, isBlank c = true := by
  constructor
  · intro h c hc
    have hnil : s.filter (!isBlank ·) = [] := by rw [← flatten_words, h]; rfl
    simpa using List.filter_eq_nil_iff.mp hnil c hc
  · intro h
    refine List.eq_nil_iff_forall_not_mem.mpr fun w hw => ?_
    obtain ⟨hne, hsolid, before, after, hs, -⟩ := mem_words_iff.mp hw
    obtain ⟨c, rest, hcons⟩ := List.exists_cons_of_ne_nil hne
    have hblank := h c (by rw [hs, hcons]; simp)
    rw [hsolid c (by rw [hcons]; simp)] at hblank
    exact Bool.noConfusion hblank

/-- The first word stands behind blanks only. -/
theorem isFirst_iff {s w : List Char} : IsFirst s w ↔ (words s).head? = some w := by
  rw [List.head?_eq_some_iff]
  constructor
  · intro h
    obtain ⟨gap, rest, hs, hgap, hchunk⟩ := h
    refine ⟨words rest, ?_⟩
    rw [hs, hchunk.words_eq, words_eq_nil_iff.mpr hgap, List.nil_append]
  · intro h
    obtain ⟨after, hwords⟩ := h
    rw [← List.nil_append (w :: after)] at hwords
    obtain ⟨gap, rest, hs, hchunk, hgap, -⟩ := exists_isChunkAt hwords
    exact ⟨gap, rest, hs, words_eq_nil_iff.mp hgap, hchunk⟩

/-! ### Joined pieces -/

/-- A character of joined pieces is the separator or stands in one of them. -/
theorem mem_of_mem_intercalate {sep c : Char} {ls : List (List Char)}
    (h : c ∈ [sep].intercalate ls) : c = sep ∨ ∃ l ∈ ls, c ∈ l := by
  induction ls with
  | nil => exact absurd h List.not_mem_nil
  | cons l ls ih =>
      cases ls with
      | nil =>
          rw [List.intercalate_singleton] at h
          exact Or.inr ⟨l, by simp, h⟩
      | cons m ls =>
          rw [List.intercalate_cons_cons, List.append_assoc, List.mem_append] at h
          rcases h with hl | hrest
          · exact Or.inr ⟨l, by simp, hl⟩
          rcases List.mem_cons.mp hrest with hsep | hrest
          · exact Or.inl hsep
          rcases ih hrest with hsep | ⟨k, hk, hc⟩
          · exact Or.inl hsep
          · exact Or.inr ⟨k, List.mem_cons_of_mem l hk, hc⟩

end Subprotocol.Text

/-
A canonical text is never longer than the lists it stands for.

Writing a list anew changes it in many ways: blanks and leading zeros go, entries of one name
become one entry, and spans that meet become one span.  The last of these can also add
characters, since two single versions side by side are written with a hyphen.  What pays for
it is the comma that stood between them.

So every piece is counted together with one separator: a token with a comma behind it, a chunk
with a blank.  The hull of two spans takes no more room than the two with their commas, because
each of its bounds is a bound of one of them; so inserting a span adds no more room than the span
takes, and neither does reading a token, an entry, or a list.  At the end both texts are one
separator short of what was counted.

The argument needs little of how long a character is: that no blank is for free and that the
characters which are written anew count one.  It holds for characters and for bytes alike.
-/
import Subprotocol.Proofs.Capabilities.Canonical

namespace Subprotocol

open Listing Text

/-! ### Gauges -/

/-- How much each character counts.  None is for free, and those of the ASCII range count one. -/
structure Gauge where
  size : Char → Nat
  pos : ∀ c, 0 < size c
  ascii : ∀ c, c.toNat < 128 → size c = 1

namespace Gauge

def characters : Gauge where
  size _ := 1
  pos _ := Nat.one_pos
  ascii _ _ := rfl

/-- The bytes of a character in UTF-8. -/
def bytes : Gauge where
  size := Char.utf8Size
  pos := Char.utf8Size_pos
  ascii _ h := Char.utf8Size_eq_one_iff.mpr (Nat.le_of_lt_succ h)

variable (g : Gauge)

def weight (s : List Char) : Nat := s.foldr (fun c n => g.size c + n) 0

/-- The weight of the pieces with a separator behind each. -/
def row (pieces : List (List Char)) : Nat := pieces.foldr (fun p n => g.weight p + 1 + n) 0

@[simp] theorem weight_nil : g.weight [] = 0 := rfl

@[simp] theorem weight_cons (c : Char) (s : List Char) :
    g.weight (c :: s) = g.size c + g.weight s := rfl

@[simp] theorem weight_append (s t : List Char) : g.weight (s ++ t) = g.weight s + g.weight t := by
  induction s with
  | nil => simp
  | cons c rest ih => rw [List.cons_append, weight_cons, weight_cons, ih, Nat.add_assoc]

@[simp] theorem row_nil : g.row [] = 0 := rfl

@[simp] theorem row_cons (p : List Char) (pieces : List (List Char)) :
    g.row (p :: pieces) = g.weight p + 1 + g.row pieces := rfl

@[simp] theorem row_append (l m : List (List Char)) : g.row (l ++ m) = g.row l + g.row m := by
  induction l with
  | nil => simp
  | cons p rest ih =>
      rw [List.cons_append, row_cons, row_cons, ih]
      omega

theorem weight_characters (s : List Char) : characters.weight s = s.length := by
  induction s with
  | nil => rfl
  | cons c rest ih =>
      rw [weight_cons, ih, List.length_cons, Nat.add_comm]
      rfl

theorem weight_bytes (s : List Char) : bytes.weight s = (String.ofList s).utf8ByteSize := by
  induction s with
  | nil => rfl
  | cons c rest ih =>
      have hcut : String.ofList (c :: rest) = String.singleton c ++ String.ofList rest := by
        rw [String.singleton_eq_ofList, ← String.ofList_append]
        rfl
      rw [weight_cons, ih, hcut, String.utf8ByteSize_append, String.utf8ByteSize_singleton]
      rfl

variable {g}

theorem weight_eq_length {s : List Char} (h : ∀ c ∈ s, c.toNat < 128) :
    g.weight s = s.length := by
  induction s with
  | nil => rfl
  | cons c rest ih =>
      obtain ⟨hc, hrest⟩ := List.forall_mem_cons.mp h
      rw [weight_cons, g.ascii c hc, ih hrest, List.length_cons, Nat.add_comm]

/-- Joined pieces have one separator less than pieces. -/
theorem weight_intercalate {sep : Char} (hsep : sep.toNat < 128) {pieces : List (List Char)}
    (hne : pieces ≠ []) : g.weight ([sep].intercalate pieces) + 1 = g.row pieces := by
  induction pieces with
  | nil => exact absurd rfl hne
  | cons p rest ih =>
      cases rest with
      | nil => simp
      | cons q rest =>
          have hrest := ih (List.cons_ne_nil q rest)
          rw [List.intercalate_cons_cons, weight_append, weight_append, weight_cons, weight_nil,
            g.ascii sep hsep, row_cons]
          omega

/-- Behind every word but the last one stands a blank. -/
theorem row_words_le (s : List Char) : g.row (words s) ≤ g.weight s + 1 := by
  have hword : ∀ w : List Char, (∀ c ∈ w, isBlank c = false) →
      g.row (words w) ≤ g.weight w + 1 := by
    intro w hw
    by_cases hne : w = []
    · rw [hne, words_nil]
      exact Nat.zero_le _
    · rw [words_of_solid hne hw]
      simp
  induction s using cut_induction with
  | solid w hw => exact hword w hw
  | cut w b t hw hb ih =>
      have hfirst := hword w hw
      have hblank := g.pos b
      rw [words_append_blank hb, row_append, weight_append, weight_cons]
      omega

end Gauge

/-! ### Spans -/

theorem Listing.IsToken.toNat_lt {t : List Char} {low high : Nat} (h : IsToken t low high) :
    ∀ c ∈ t, c.toNat < 128 := by
  intro c hc
  rcases h.char c hc with hdigit | hhyphen
  · simp only [Char.isDigit, Bool.and_eq_true, decide_eq_true_eq, UInt32.le_iff_toNat_le] at hdigit
    have hrange : c.toNat ≤ 57 := hdigit.2
    omega
  · rw [hhyphen]
    decide

namespace Span

theorem length_digits_low_le (s : Span) : (Decimal.digits s.low).length ≤ s.chars.length := by
  unfold chars
  split
  · exact Nat.le_refl _
  · rw [List.length_append]
    omega

theorem length_digits_high_le (s : Span) : (Decimal.digits s.high).length ≤ s.chars.length := by
  unfold chars
  split
  · rename_i hsingle
    have heq : s.low = s.high := hsingle
    exact Nat.le_of_eq (by rw [heq])
  · rw [List.length_append, List.length_cons]
    omega

theorem length_chars_le (s : Span) :
    s.chars.length ≤ (Decimal.digits s.low).length + 1 + (Decimal.digits s.high).length := by
  unfold chars
  split
  · omega
  · rw [List.length_append, List.length_cons]
    omega

theorem hull_eq_left {a b : Span} (hlow : a.low ≤ b.low) (hhigh : b.high ≤ a.high) :
    a.hull b = a := by
  cases a
  simp only [hull, Span.mk.injEq]
  exact ⟨Nat.min_eq_left hlow, Nat.max_eq_left hhigh⟩

theorem hull_comm (a b : Span) : a.hull b = b.hull a := by
  simp only [hull, Span.mk.injEq]
  exact ⟨Nat.min_comm _ _, Nat.max_comm _ _⟩

/-- The hull of two spans takes no more room than the two with a comma between them. -/
theorem length_chars_hull_le (a b : Span) :
    (a.hull b).chars.length ≤ a.chars.length + 1 + b.chars.length := by
  have hhull := (a.hull b).length_chars_le
  rw [low_hull, high_hull] at hhull
  have halow := a.length_digits_low_le
  have hahigh := a.length_digits_high_le
  have hblow := b.length_digits_low_le
  have hbhigh := b.length_digits_high_le
  rcases Nat.le_total a.low b.low with hlow | hlow <;>
    rcases Nat.le_total a.high b.high with hhigh | hhigh
  · rw [Nat.min_eq_left hlow, Nat.max_eq_right hhigh] at hhull
    omega
  · rw [hull_eq_left hlow hhigh]
    omega
  · rw [hull_comm, hull_eq_left hlow hhigh]
    omega
  · rw [Nat.min_eq_right hlow, Nat.max_eq_left hhigh] at hhull
    omega

/-- No token of a span is shorter than the one that is written for it. -/
theorem length_chars_le_of_isToken {s : Span} {t : List Char} (h : IsToken t s.low s.high) :
    s.chars.length ≤ t.length := by
  have hdigits : ∀ {u : List Char} {v : Nat}, IsVersion u v →
      (Decimal.digits v).length ≤ u.length := by
    intro u v hversion
    obtain ⟨hnumeral, hvalue, -⟩ := hversion
    rw [← hvalue]
    exact Decimal.length_digits_value_le hnumeral
  generalize hlow : s.low = low at h
  generalize hhigh : s.high = high at h
  cases h with
  | single h =>
      rw [chars_of_eq (by omega), hlow]
      exact hdigits h
  | bounds hbefore hafter =>
      have hb := hdigits hbefore
      have ha := hdigits hafter
      have hle := s.length_chars_le
      rw [hlow, hhigh] at hle
      rw [List.length_append, List.length_cons]
      omega

end Span

namespace Spans

/-- How many characters the spans take with a comma behind each. -/
def room (l : Spans) : Nat := l.foldr (fun s n => s.chars.length + 1 + n) 0

@[simp] theorem room_nil : room [] = 0 := rfl

@[simp] theorem room_cons (s : Span) (l : Spans) : room (s :: l) = s.chars.length + 1 + room l :=
  rfl

@[simp] theorem room_append (l m : Spans) : room (l ++ m) = room l + room m := by
  induction l with
  | nil => simp
  | cons s rest ih =>
      rw [List.cons_append, room_cons, room_cons, ih]
      omega

theorem room_absorb_le (s : Span) (l : Spans) :
    room (absorb s l) ≤ s.chars.length + 1 + room l := by
  induction l generalizing s with
  | nil => simp [absorb]
  | cons r rest ih =>
      unfold absorb
      by_cases h : s.Meets r
      · have hhull := s.length_chars_hull_le r
        have hrest := ih (s.hull r)
        rw [if_pos h, room_cons]
        omega
      · rw [if_neg h]
        exact Nat.le_of_eq (room_cons s (r :: rest))

theorem room_insert_le (l : Spans) (s : Span) :
    room (l.insert s) ≤ room l + (s.chars.length + 1) := by
  have hsplit : room l =
      room (l.takeWhile (·.high + 1 < s.low)) + room (l.dropWhile (·.high + 1 < s.low)) := by
    rw [← room_append, List.takeWhile_append_dropWhile]
  have habsorb := room_absorb_le s (l.dropWhile (·.high + 1 < s.low))
  rw [insert, room_append]
  omega

theorem room_insertAll_le (l new : Spans) : room (l.insertAll new) ≤ room l + room new := by
  induction new generalizing l with
  | nil => exact Nat.le_refl _
  | cons s rest ih =>
      have hinsert := room_insert_le l s
      have hrest : room (l.insertAll (s :: rest)) ≤ room (l.insert s) + room rest := ih (l.insert s)
      rw [room_cons]
      omega

theorem room_ofList_le (l : Spans) : room (ofList l) ≤ room l := by
  have hall := room_insertAll_le [] l
  rwa [room_nil, Nat.zero_add] at hall

theorem row_chars (g : Gauge) (l : Spans) : g.row (l.map Span.chars) = room l := by
  induction l with
  | nil => rfl
  | cons s rest ih =>
      have hascii : ∀ c ∈ s.chars, c.toNat < 128 := s.isToken_chars.toNat_lt
      rw [List.map_cons, Gauge.row_cons, ih, Gauge.weight_eq_length hascii, room_cons]

end Spans

theorem Listing.States.room_le_row (g : Gauge) {tokens : List (List Char)} {spans : Spans}
    (h : States tokens spans) : spans.room ≤ g.row tokens := by
  induction h with
  | nil => exact Nat.le_refl _
  | @cons t s tokens spans hts _ ih =>
      have hshort := Span.length_chars_le_of_isToken hts
      rw [Spans.room_cons, Gauge.row_cons, Gauge.weight_eq_length hts.toNat_lt]
      omega

/-! ### Entries -/

namespace Gauge

variable (g : Gauge)

/-- The weight of an entry with a blank behind it. -/
def entry (e : Entry) : Nat := g.weight e.name.toList + 1 + e.spans.room

def entries (l : List Entry) : Nat := l.foldr (fun e n => g.entry e + n) 0

@[simp] theorem entries_nil : g.entries [] = 0 := rfl

@[simp] theorem entries_cons (e : Entry) (l : List Entry) :
    g.entries (e :: l) = g.entry e + g.entries l := rfl

variable {g}

/-- The comma behind the last token stands for the blank behind the entry. -/
theorem weight_form {name : String} {tokens : List (List Char)} (hne : tokens ≠ []) :
    g.weight (name.toList ++ '=' :: [','].intercalate tokens) + 1 =
      g.weight name.toList + 1 + g.row tokens := by
  have hspec := weight_intercalate (g := g) (show ','.toNat < 128 by decide) hne
  rw [weight_append, weight_cons, g.ascii '=' (by decide)]
  omega

theorem weight_chars {e : Entry} (hne : ¬ e.IsEmpty) : g.weight e.chars + 1 = g.entry e := by
  have htokens : e.spans.map Span.chars ≠ [] := mt List.map_eq_nil_iff.mp hne
  rw [entry, ← Spans.row_chars g]
  exact weight_form htokens

theorem entry_le_of_read {w : List Char} {e : Entry} (h : Entry.read w = .ok e) :
    g.entry e ≤ g.weight w + 1 := by
  obtain ⟨tokens, spans, hentry, hstates, hspans⟩ := Entry.read_eq_ok_iff.mp h
  have hinserted := Spans.room_ofList_le spans
  have hstated := hstates.room_le_row g
  rw [hentry.form, weight_form hentry.nonempty, entry, hspans]
  omega

theorem entries_le_of_readEntries {s : List Char} {l : List Entry} (h : readEntries s = .ok l) :
    g.entries l ≤ g.row (words s) := by
  unfold readEntries at h
  rw [Reading.mapM_eq_ok_iff] at h
  generalize words s = ws at h
  induction h with
  | nil => exact Nat.le_refl _
  | cons hread _ ih =>
      have hfirst := entry_le_of_read (g := g) hread
      rw [entries_cons, row_cons]
      omega

/-! ### Lists -/

theorem entries_place_le (e : Entry) (l : List Entry) :
    g.entries (Capabilities.place e l) ≤ g.entry e + g.entries l := by
  induction l with
  | nil => exact Nat.le_refl _
  | cons f rest ih =>
      unfold Capabilities.place
      split
      · -- The name is written once, and the spans of both stand behind it.
        have hspans := Spans.room_insertAll_le f.spans e.spans
        simp only [entries_cons, entry, Entry.absorb]
        omega
      · split
        · simp only [entries_cons]
          omega
        · simp only [entries_cons]
          omega

theorem entries_insertEntry_le (c : Capabilities) (e : Entry) :
    g.entries (c.insertEntry e).entries ≤ g.entries c.entries + g.entry e := by
  unfold Capabilities.insertEntry
  split
  · exact Nat.le_add_right _ _
  · have hplace := entries_place_le (g := g) e c.entries
    show g.entries (Capabilities.place e c.entries) ≤ _
    omega

theorem entries_foldl_le (l : List Entry) (c : Capabilities) :
    g.entries (l.foldl Capabilities.insertEntry c).entries ≤ g.entries c.entries + g.entries l := by
  induction l generalizing c with
  | nil => exact Nat.le_refl _
  | cons e rest ih =>
      have hinsert := entries_insertEntry_le (g := g) c e
      have hrest := ih (c.insertEntry e)
      rw [List.foldl_cons, entries_cons]
      omega

theorem entries_ofEntries_le (l : List Entry) :
    g.entries (Capabilities.ofEntries l).entries ≤ g.entries l := by
  have hall := entries_foldl_le (g := g) l Capabilities.empty
  rwa [show g.entries Capabilities.empty.entries = 0 from rfl, Nat.zero_add] at hall

theorem row_map_chars {l : List Entry} (h : ∀ e ∈ l, ¬ e.IsEmpty) :
    g.row (l.map Entry.chars) = g.entries l := by
  induction l with
  | nil => rfl
  | cons e rest ih =>
      obtain ⟨he, hrest⟩ := List.forall_mem_cons.mp h
      rw [List.map_cons, row_cons, weight_chars he, ih hrest, entries_cons]

/-- **What is written for a list weighs no more than the list.** -/
theorem weight_chars_le_of_parse {s : String} {c : Capabilities}
    (h : Capabilities.parse s = .ok c) : g.weight c.chars ≤ g.weight s.toList := by
  by_cases hempty : c.entries = []
  · have hchars : c.chars = [] := by
      unfold Capabilities.chars
      rw [hempty]
      rfl
    rw [hchars, weight_nil]
    exact Nat.zero_le _
  · obtain ⟨l, hl, hc⟩ := Capabilities.parse_eq_ok_iff.mp h
    have hpieces : c.entries.map Entry.chars ≠ [] := mt List.map_eq_nil_iff.mp hempty
    have hwritten := weight_intercalate (g := g) (show ' '.toNat < 128 by decide) hpieces
    have hcollected : g.entries c.entries ≤ g.entries l := by
      rw [hc]
      exact entries_ofEntries_le l
    rw [row_map_chars (Capabilities.wellFormed_of_parse h).nonempty] at hwritten
    have hsum : g.weight c.chars + 1 ≤ g.weight s.toList + 1 := calc
      g.weight c.chars + 1 = g.entries c.entries := hwritten
      _ ≤ g.entries l := hcollected
      _ ≤ g.row (words s.toList) := entries_le_of_readEntries hl
      _ ≤ g.weight s.toList + 1 := row_words_le s.toList
    exact Nat.le_of_succ_le_succ hsum

end Gauge

namespace Listing

/-- **Canonicalizing never lengthens a list**, neither in bytes nor in characters. -/
theorem canonical_no_longer {s : String} {c : Capabilities} (h : Capabilities.parse s = .ok c) :
    ∃ t, canonical s = .ok t ∧ t.utf8ByteSize ≤ s.utf8ByteSize ∧ t.length ≤ s.length := by
  refine ⟨c.encode, canonical_of_parse h, ?_, ?_⟩
  · have hbytes := Gauge.weight_chars_le_of_parse (g := Gauge.bytes) h
    rwa [Gauge.weight_bytes, Gauge.weight_bytes, String.ofList_toList] at hbytes
  · have hcharacters := Gauge.weight_chars_le_of_parse (g := Gauge.characters) h
    rw [Gauge.weight_characters, Gauge.weight_characters, String.length_toList] at hcharacters
    unfold Capabilities.encode
    rwa [String.length_ofList]

/-- Two versions side by side are written with as many characters as they came with, and a list
in which names, spans and leading zeros go is written with fewer. -/
theorem canonical_no_longer_unicode :
    ∃ s t c d, s = "Größe=1,2" ∧ Capabilities.parse s = .ok c ∧ canonical s = .ok "Größe=1-2" ∧
      "Größe=1-2".utf8ByteSize = s.utf8ByteSize ∧ "Größe=1-2".length = s.length ∧
      t = "\u3000Größe=003\u3000Größe=4294967295,1,2" ∧ Capabilities.parse t = .ok d ∧
      canonical t = .ok "Größe=1-3,4294967295" ∧
      "Größe=1-3,4294967295".utf8ByteSize ≤ t.utf8ByteSize ∧
      "Größe=1-3,4294967295".length ≤ t.length := by
  have hs : canonical "Größe=1,2" = .ok "Größe=1-2" := by
    decide +kernel
  have ht : canonical "\u3000Größe=003\u3000Größe=4294967295,1,2" =
      .ok "Größe=1-3,4294967295" := by
    decide +kernel
  obtain ⟨c, hc, -⟩ := Reading.map_eq_ok_iff.mp hs
  obtain ⟨d, hd, -⟩ := Reading.map_eq_ok_iff.mp ht
  obtain ⟨u, hu, hbytes, hlength⟩ := canonical_no_longer hd
  obtain rfl : "Größe=1-3,4294967295" = u := Except.ok.inj (ht.symm.trans hu)
  exact ⟨_, _, c, d, rfl, hc, hs, by decide +kernel, by decide +kernel, rfl, hd, ht, hbytes,
    hlength⟩

end Listing

end Subprotocol

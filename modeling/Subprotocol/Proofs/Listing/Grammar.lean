/-
The grammar of protocol lists, and the readers of its parts.

The grammar is stated by what the parts of a list look like, without the order in which a
reader cuts them.  A token is a numeral or two numerals with a hyphen between them, an
entry is a valid name, one `=` and a comma separated row of tokens, and a list is any text
whose chunks are entries.

Every reader accepts its part of the grammar and nothing else, and reads from it what the
grammar says it states.  The cuts are no choices: a numeral holds no hyphen, a token no
comma and a name no `=`, so the first place where a reader can cut is the only one.
-/
import Subprotocol.Listing.Reader
import Subprotocol.Spans.Lemmas
import Subprotocol.Proofs.Reading
import Subprotocol.Proofs.Text.Chunks

namespace Subprotocol

namespace Listing

/-- `s` is a numeral of the version `v`.  Leading zeros do not matter. -/
def IsVersion (s : List Char) (v : Nat) : Prop :=
  Decimal.IsNumeral s ∧ Decimal.value s = v ∧ v ≤ lastVersion

/-- `token` states the bounds `low` and `high`, or the one version that is both. -/
inductive IsToken : (token : List Char) → (low high : Nat) → Prop
  | single {s : List Char} {v : Nat} (h : IsVersion s v) : IsToken s v v
  | bounds {before after : List Char} {low high : Nat} (hlow : IsVersion before low)
      (hhigh : IsVersion after high) (ordered : low ≤ high) :
      IsToken (before ++ '-' :: after) low high

/-- `w` is the entry `name=spec`, and `spec` is the row of `tokens`. -/
structure IsEntry (w : List Char) (name : String) (tokens : List (List Char)) : Prop where
  validName : ValidName name
  form : w = name.toList ++ '=' :: [','].intercalate tokens
  /-- There is no second `=`. -/
  once : w.count '=' = 1
  nonempty : tokens ≠ []
  token : ∀ t ∈ tokens, ∃ low high, IsToken t low high

/-- Some token states bounds that `v` lies between. -/
def Covers (tokens : List (List Char)) (v : Nat) : Prop :=
  ∃ t ∈ tokens, ∃ low high, IsToken t low high ∧ low ≤ v ∧ v ≤ high

/-! ### Which characters stand in a token -/

theorem IsToken.char {t : List Char} {low high : Nat} (h : IsToken t low high) :
    ∀ c ∈ t, c.isDigit = true ∨ c = '-' := by
  intro c hc
  cases h with
  | single h => exact Or.inl (h.1.2 c hc)
  | bounds hlow hhigh =>
      rcases List.mem_append.mp hc with hbefore | hafter
      · exact Or.inl (hlow.1.2 c hbefore)
      · rcases List.mem_cons.mp hafter with hhyphen | hafter
        · exact Or.inr hhyphen
        · exact Or.inl (hhigh.1.2 c hafter)

theorem IsToken.ne_nil {t : List Char} {low high : Nat} (h : IsToken t low high) : t ≠ [] := by
  cases h with
  | single h => exact h.1.1
  | bounds => simp

theorem IsToken.ordered {t : List Char} {low high : Nat} (h : IsToken t low high) :
    low ≤ high := by
  cases h with
  | single => exact Nat.le_refl _
  | bounds _ _ ordered => exact ordered

theorem IsToken.bounded {t : List Char} {low high : Nat} (h : IsToken t low high) :
    high ≤ lastVersion := by
  cases h with
  | single h => exact h.2.2
  | bounds _ hhigh => exact hhigh.2.2

/-- A character that is no digit and no hyphen, such as those that are cut at. -/
private theorem IsToken.not_mem {t : List Char} {low high : Nat} (h : IsToken t low high) {c : Char}
    (hdigit : c.isDigit = false) (hhyphen : c ≠ '-') : c ∉ t := by
  intro hc
  rcases h.char c hc with hd | hh
  · rw [hdigit] at hd
    exact Bool.noConfusion hd
  · exact hhyphen hh

theorem not_mem_of_isVersion {s : List Char} {v : Nat} (h : IsVersion s v) : '-' ∉ s := by
  intro hc
  exact absurd (h.1.2 '-' hc) (by decide)

end Listing

/-! ### Tokens -/

open Listing

theorem readVersion_eq_ok_iff {s : List Char} {v : Nat} :
    readVersion s = .ok v ↔ IsVersion s v := by
  rw [IsVersion, ← Decimal.read_eq_ok_iff, readVersion]
  cases hread : Decimal.read lastVersion s with
  | ok w => simp
  | error e => cases e <;> simp

theorem Span.between_eq_ok_iff {low high : Nat} {s : Span} :
    Span.between low high = .ok s ↔ s.low = low ∧ s.high = high := by
  constructor
  · intro h
    simp only [Span.between, Span.ofBounds] at h
    split at h
    · rename_i t ht
      simp only [Except.ok.injEq] at h
      subst h
      split at ht
      · split at ht
        · simp only [Except.ok.injEq] at ht
          subst ht
          exact ⟨rfl, rfl⟩
        · simp at ht
      · simp at ht
    · simp at h
    · simp at h
  · intro h
    obtain ⟨rfl, rfl⟩ := h
    rw [Span.between, Span.ofBounds_low_high]

/-- **A token is read as the span it states.** -/
theorem Span.read_eq_ok_iff {t : List Char} {s : Span} :
    Span.read t = .ok s ↔ IsToken t s.low s.high := by
  constructor
  · intro h
    rw [Span.read] at h
    split at h
    · obtain ⟨v, hv, hspan⟩ := Reading.bind_eq_ok_iff.mp h
      obtain ⟨hlow, hhigh⟩ := Span.between_eq_ok_iff.mp hspan
      rw [hlow, hhigh]
      exact IsToken.single (readVersion_eq_ok_iff.mp hv)
    · rename_i before after hcut
      obtain ⟨low, hlow, h⟩ := Reading.bind_eq_ok_iff.mp h
      obtain ⟨high, hhigh, hspan⟩ := Reading.bind_eq_ok_iff.mp h
      obtain ⟨hslow, hshigh⟩ := Span.between_eq_ok_iff.mp hspan
      have hordered := s.ordered
      rw [hslow, hshigh] at hordered
      rw [hslow, hshigh, (Text.cut?_eq_some_iff.mp hcut).1]
      exact IsToken.bounds (readVersion_eq_ok_iff.mp hlow) (readVersion_eq_ok_iff.mp hhigh)
        hordered
  · intro h
    rw [Span.read]
    generalize hlow : s.low = low at h
    generalize hhigh : s.high = high at h
    cases h with
    | single h =>
        rw [Text.cut?_eq_none_iff.mpr (not_mem_of_isVersion h)]
        exact Reading.bind_eq_ok_iff.mpr
          ⟨_, readVersion_eq_ok_iff.mpr h, Span.between_eq_ok_iff.mpr ⟨hlow, hhigh⟩⟩
    | @bounds before after _ _ hl hh =>
        rw [Text.cut?_append (not_mem_of_isVersion hl)]
        refine Reading.bind_eq_ok_iff.mpr ⟨_, readVersion_eq_ok_iff.mpr hl, ?_⟩
        exact Reading.bind_eq_ok_iff.mpr
          ⟨_, readVersion_eq_ok_iff.mpr hh, Span.between_eq_ok_iff.mpr ⟨hlow, hhigh⟩⟩

/-- A token states one span. -/
theorem Listing.IsToken.functional {t : List Char} {low high low' high' : Nat}
    (h : IsToken t low high) (h' : IsToken t low' high') : low = low' ∧ high = high' := by
  have hread : Span.read t = .ok ⟨low, high, h.ordered, h.bounded⟩ := Span.read_eq_ok_iff.mpr h
  have hread' : Span.read t = .ok ⟨low', high', h'.ordered, h'.bounded⟩ :=
    Span.read_eq_ok_iff.mpr h'
  rw [hread] at hread'
  simpa using hread'

/-! ### Rows of tokens -/

/-- Each of the spans is what the token in the same place states. -/
def Listing.States (tokens : List (List Char)) (spans : Spans) : Prop :=
  List.Forall₂ (fun t (s : Span) => IsToken t s.low s.high) tokens spans

theorem Spans.read_eq_ok_iff {spec : List Char} {spans : Spans} :
    Spans.read spec = .ok spans ↔ States (spec.splitOn ',') spans := by
  simp only [Spans.read, Reading.mapM_eq_ok_iff, Span.read_eq_ok_iff, States]

theorem Listing.States.ne_nil {tokens : List (List Char)} {spans : Spans} (h : States tokens spans)
    (hne : tokens ≠ []) : spans ≠ [] := by
  cases h with
  | nil => exact absurd rfl hne
  | cons => simp

theorem Listing.States.token {tokens : List (List Char)} {spans : Spans} (h : States tokens spans) :
    ∀ t ∈ tokens, ∃ low high, IsToken t low high := by
  induction h with
  | nil => intro t ht; exact absurd ht List.not_mem_nil
  | cons hts _ ih =>
      intro t ht
      rcases List.mem_cons.mp ht with rfl | ht
      · exact ⟨_, _, hts⟩
      · exact ih t ht

/-- The spans hold the versions that the tokens cover. -/
theorem Listing.States.holds_iff {tokens : List (List Char)} {spans : Spans} (h : States tokens spans)
    {v : Nat} : spans.Holds v ↔ Covers tokens v := by
  induction h with
  | nil => simp [Spans.not_holds_nil, Covers]
  | @cons t s tokens spans hts _ ih =>
      have hcovers : Covers (t :: tokens) v ↔
          (∃ low high, IsToken t low high ∧ low ≤ v ∧ v ≤ high) ∨ Covers tokens v := by
        simp [Covers]
      rw [Spans.holds_cons, hcovers, ih, Span.mem_iff]
      constructor
      · intro hv
        rcases hv with hs | hrest
        · exact Or.inl ⟨s.low, s.high, hts, hs⟩
        · exact Or.inr hrest
      · intro hv
        rcases hv with ⟨low, high, ht, hlow, hhigh⟩ | hrest
        · obtain ⟨rfl, rfl⟩ := hts.functional ht
          exact Or.inl ⟨hlow, hhigh⟩
        · exact Or.inr hrest

private theorem exists_states {tokens : List (List Char)}
    (h : ∀ t ∈ tokens, ∃ low high, IsToken t low high) : ∃ spans, States tokens spans := by
  induction tokens with
  | nil => exact ⟨[], List.Forall₂.nil⟩
  | cons t tokens ih =>
      obtain ⟨low, high, ht⟩ := h t (by simp)
      obtain ⟨spans, hspans⟩ := ih fun u hu => h u (by simp [hu])
      exact ⟨⟨low, high, ht.ordered, ht.bounded⟩ :: spans, List.Forall₂.cons ht hspans⟩

/-! ### Entries -/

theorem ValidName.not_mem_equals {name : String} (h : ValidName name) : '=' ∉ name.toList := by
  intro hc
  exact absurd (h.2 '=' hc) (by decide)

namespace Listing

variable {w : List Char} {name : String} {tokens : List (List Char)}

theorem IsEntry.splitOn (h : IsEntry w name tokens) :
    ([','].intercalate tokens).splitOn ',' = tokens := by
  refine List.splitOn_intercalate ',' (fun t ht => ?_) h.nonempty
  obtain ⟨low, high, htoken⟩ := h.token t ht
  exact htoken.not_mem (by decide) (by decide)

theorem IsEntry.not_mem_spec (h : IsEntry w name tokens) :
    '=' ∉ [','].intercalate tokens := by
  have hcount := h.once
  rw [h.form, List.count_append, List.count_cons_self] at hcount
  exact List.count_eq_zero.mp (by omega)

theorem IsEntry.spec_ne_nil (h : IsEntry w name tokens) : [','].intercalate tokens ≠ [] := by
  intro hnil
  have htokens := h.splitOn
  rw [hnil, List.splitOn_nil] at htokens
  obtain ⟨low, high, htoken⟩ := h.token [] (by rw [← htokens]; simp)
  exact htoken.ne_nil rfl

end Listing

/-- **An entry is read as its name, with the spans that its tokens state.** -/
theorem Entry.read_eq_ok_iff {w : List Char} {e : Entry} :
    Entry.read w = .ok e ↔ ∃ tokens spans, IsEntry w e.name tokens ∧ States tokens spans ∧
      e.spans = Spans.ofList spans := by
  constructor
  · intro h
    rw [Entry.read] at h
    split at h
    · simp at h
    · rename_i before spec hcut
      obtain ⟨hw, hbefore⟩ := Text.cut?_eq_some_iff.mp hcut
      simp only at h
      split at h
      · simp at h
      · rename_i hspec
        split at h
        · simp at h
        · rename_i hname
          split at h
          · simp at h
          · obtain ⟨spans, hspans, hpure⟩ := Reading.bind_eq_ok_iff.mp h
            obtain rfl := Reading.pure_eq_ok_iff.mp hpure
            have hstates := Spans.read_eq_ok_iff.mp hspans
            refine ⟨spec.splitOn ',', spans, ⟨by simpa using hname, ?_, ?_, ?_, hstates.token⟩,
              hstates, rfl⟩
            · rw [List.intercalate_splitOn, String.toList_ofList, hw]
            · rw [hw, List.count_append, List.count_cons_self, List.count_eq_zero.mpr hbefore,
                List.count_eq_zero.mpr hspec]
            · exact List.splitOn_ne_nil ',' spec
  · intro h
    obtain ⟨tokens, spans, hentry, hstates, hspans⟩ := h
    have hread : Spans.read ([','].intercalate tokens) = .ok spans := by
      rw [Spans.read_eq_ok_iff, hentry.splitOn]
      exact hstates
    rw [Entry.read, hentry.form, Text.cut?_append hentry.validName.not_mem_equals]
    simp only [hentry.not_mem_spec, hentry.spec_ne_nil, String.ofList_toList, hentry.validName,
      not_true_eq_false, if_false, hread]
    refine Reading.pure_eq_ok_iff.mpr ?_
    rw [← hspans]

namespace Listing

variable {w : List Char} {name : String} {tokens : List (List Char)}

/-- An entry is read without a fault. -/
theorem IsEntry.exists_read (h : IsEntry w name tokens) :
    ∃ e, Entry.read w = .ok e ∧ e.name = name ∧ ∀ v, e.spans.Holds v ↔ Covers tokens v := by
  obtain ⟨spans, hspans⟩ := exists_states h.token
  refine ⟨⟨name, Spans.ofList spans⟩, Entry.read_eq_ok_iff.mpr ⟨tokens, spans, h, hspans, rfl⟩,
    rfl, fun v => ?_⟩
  rw [Spans.holds_ofList, hspans.holds_iff]

/-- What is read without a fault is an entry. -/
theorem exists_isEntry {e : Entry} (h : Entry.read w = .ok e) :
    ∃ tokens, IsEntry w e.name tokens ∧ ∀ v, e.spans.Holds v ↔ Covers tokens v := by
  obtain ⟨tokens, spans, hentry, hstates, hspans⟩ := Entry.read_eq_ok_iff.mp h
  refine ⟨tokens, hentry, fun v => ?_⟩
  rw [hspans, Spans.holds_ofList, hstates.holds_iff]

end Listing

/-- An entry that was read has a valid name, separate spans, and at least one of them. -/
theorem Entry.wellFormed_of_read {w : List Char} {e : Entry} (h : Entry.read w = .ok e) :
    e.WellFormed ∧ ¬ e.IsEmpty := by
  obtain ⟨tokens, spans, hentry, hstates, hspans⟩ := Entry.read_eq_ok_iff.mp h
  refine ⟨⟨hentry.validName, ?_⟩, ?_⟩
  · rw [hspans]
    exact Spans.separated_ofList spans
  · intro hempty
    cases hcons : spans with
    | nil => exact hstates.ne_nil hentry.nonempty hcons
    | cons s rest =>
        have hholds : e.spans.Holds s.low := by
          rw [hspans, Spans.holds_ofList, hcons, Spans.holds_cons]
          exact Or.inl s.low_mem
        rw [show e.spans = [] from hempty] at hholds
        exact Spans.not_holds_nil _ hholds

end Subprotocol

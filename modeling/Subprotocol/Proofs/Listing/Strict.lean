/-
The canonical texts, by their look.

Whether a text is canonical is tested by reading it and writing what it lists.  The strict
grammar asks the same of the text alone.  It is the grammar of lists without its choices: one
space stands between two entries and none at the ends, the names ascend, a number has no
leading zeros, a token with two bounds means two versions or more, and between a token and the
next some version is missing.

No deviation needs an argument of its own.  At each level the strict pieces of text are exactly
what is written for some value: a strict numeral for a version, a strict token for a span, a
strict spec for separate spans, and so on up to the whole text.  A strict text is therefore the
text of well formed capabilities.  Those are read back from it and written as before, and any
text that is written for something is strict.
-/
import Mathlib.Data.List.Chain
import Subprotocol.Proofs.Capabilities.Canonical

namespace Subprotocol

namespace Listing

/-! ### The strict grammar -/

/-- `s` is a numeral of the version `v`, without leading zeros. -/
def IsStrictVersion (s : List Char) (v : Nat) : Prop := IsVersion s v ∧ Decimal.IsPlain s

/-- `token` states one version, or two bounds of which the first is the lesser. -/
inductive IsStrictToken : (token : List Char) → (low high : Nat) → Prop
  | single {s : List Char} {v : Nat} (h : IsStrictVersion s v) : IsStrictToken s v v
  | bounds {before after : List Char} {low high : Nat} (hlow : IsStrictVersion before low)
      (hhigh : IsStrictVersion after high) (ascending : low < high) :
      IsStrictToken (before ++ '-' :: after) low high

/-- `spec` is a row of tokens, and some version is missing between each and the next. -/
inductive IsStrictSpec : (spec : List Char) → Prop
  | row {tokens : List (List Char)} {bounds : List (Nat × Nat)} (nonempty : tokens ≠ [])
      (states : List.Forall₂ (fun t b => IsStrictToken t b.1 b.2) tokens bounds)
      (apart : bounds.IsChain fun a b => a.2 + 1 < b.1) :
      IsStrictSpec ([','].intercalate tokens)

/-- `w` is the entry `name=spec`. -/
inductive IsStrictEntry : (w : List Char) → (name : String) → Prop
  | entry {name : String} {spec : List Char} (validName : ValidName name)
      (strict : IsStrictSpec spec) : IsStrictEntry (name.toList ++ '=' :: spec) name

/-- `s` is empty, or a row of entries whose names ascend. -/
inductive IsStrictList : (s : List Char) → Prop
  | empty : IsStrictList []
  | row {words : List (List Char)} {names : List String} (nonempty : words ≠ [])
      (entries : List.Forall₂ IsStrictEntry words names)
      (ascending : names.Pairwise (· < ·)) : IsStrictList ([' '].intercalate words)

end Listing

/-! ### Rows -/

/-- If every related pair comes from some `x`, then related rows come from a row of those. -/
private theorem forall₂_iff_exists_map {α β γ : Type} {R : α → β → Prop} {P : γ → Prop}
    {f : γ → α} {g : γ → β} (h : ∀ a b, R a b ↔ ∃ x, P x ∧ f x = a ∧ g x = b) {as : List α}
    {bs : List β} :
    List.Forall₂ R as bs ↔ ∃ l : List γ, (∀ x ∈ l, P x) ∧ l.map f = as ∧ l.map g = bs := by
  refine ⟨fun hrows => ?_, fun hrows => ?_⟩
  · induction hrows with
    | nil => exact ⟨[], by simp, rfl, rfl⟩
    | cons hab _ ih =>
        obtain ⟨x, hx, rfl, rfl⟩ := (h _ _).mp hab
        obtain ⟨l, hl, rfl, rfl⟩ := ih
        exact ⟨x :: l, List.forall_mem_cons.mpr ⟨hx, hl⟩, rfl, rfl⟩
  · obtain ⟨l, hl, rfl, rfl⟩ := hrows
    refine List.forall₂_map_left_iff.mpr (List.forall₂_map_right_iff.mpr ?_)
    exact List.forall₂_same.mpr fun x hx => (h _ _).mpr ⟨x, hl x hx, rfl, rfl⟩

/-- It is enough that each span is apart from the next. -/
theorem Spans.separated_iff_isChain {l : Spans} :
    l.Separated ↔ l.IsChain fun a b => a.high + 1 < b.low := by
  have : Trans (fun a b : Span => a.high + 1 < b.low) (fun a b : Span => a.high + 1 < b.low)
      fun a b : Span => a.high + 1 < b.low := by
    refine ⟨fun {a b c} hab hbc => ?_⟩
    have := b.ordered
    omega
  exact List.isChain_iff_pairwise.symm

namespace Listing

/-! ### Strict is what is written -/

theorem isStrictVersion_iff {s : List Char} {v : Nat} :
    IsStrictVersion s v ↔ v ≤ lastVersion ∧ Decimal.digits v = s := by
  unfold IsStrictVersion IsVersion
  refine ⟨fun h => ?_, fun h => ?_⟩
  · obtain ⟨⟨hnumeral, rfl, hbounded⟩, hplain⟩ := h
    exact ⟨hbounded, Decimal.digits_value hnumeral hplain⟩
  · obtain ⟨hbounded, rfl⟩ := h
    exact ⟨⟨Decimal.isNumeral_digits v, Decimal.value_digits v, hbounded⟩,
      Decimal.isPlain_digits v⟩

theorem isStrictToken_iff {t : List Char} {low high : Nat} :
    IsStrictToken t low high ↔ ∃ s : Span, s.chars = t ∧ s.low = low ∧ s.high = high := by
  refine ⟨fun h => ?_, fun h => ?_⟩
  · cases h with
    | single h =>
        obtain ⟨hbounded, rfl⟩ := isStrictVersion_iff.mp h
        exact ⟨⟨low, low, Nat.le_refl low, hbounded⟩, Span.chars_of_eq rfl, rfl, rfl⟩
    | bounds hlow hhigh ascending =>
        obtain ⟨-, rfl⟩ := isStrictVersion_iff.mp hlow
        obtain ⟨hbounded, rfl⟩ := isStrictVersion_iff.mp hhigh
        exact ⟨⟨low, high, Nat.le_of_lt ascending, hbounded⟩, Span.chars_of_lt ascending, rfl, rfl⟩
  · obtain ⟨s, rfl, rfl, rfl⟩ := h
    have hordered := s.ordered
    have hhigh := isStrictVersion_iff.mpr ⟨s.bounded, rfl⟩
    have hlow := isStrictVersion_iff.mpr ⟨Nat.le_trans s.ordered s.bounded, rfl⟩
    by_cases hsingle : s.low = s.high
    · rw [Span.chars_of_eq hsingle, ← hsingle]
      exact .single hlow
    · have hlt : s.low < s.high := by omega
      rw [Span.chars_of_lt hlt]
      exact .bounds hlow hhigh hlt

private theorem strictTokens_iff {tokens : List (List Char)} {bounds : List (Nat × Nat)} :
    List.Forall₂ (fun t b => IsStrictToken t b.1 b.2) tokens bounds ↔
      ∃ l : Spans, l.map Span.chars = tokens ∧ l.map (fun s => (s.low, s.high)) = bounds := by
  have hrow : ∀ t (b : Nat × Nat), IsStrictToken t b.1 b.2 ↔
      ∃ s : Span, True ∧ s.chars = t ∧ (s.low, s.high) = b := by
    intro t b
    simp only [isStrictToken_iff, true_and, Prod.ext_iff]
  rw [forall₂_iff_exists_map hrow]
  simp only [implies_true, true_and]

theorem isStrictSpec_iff {spec : List Char} :
    IsStrictSpec spec ↔ ∃ l : Spans, l ≠ [] ∧ l.Separated ∧ l.chars = spec := by
  refine ⟨fun h => ?_, fun h => ?_⟩
  · obtain ⟨nonempty, states, apart⟩ := h
    obtain ⟨l, rfl, rfl⟩ := strictTokens_iff.mp states
    refine ⟨l, fun hnil => nonempty (by rw [hnil]; rfl), ?_, rfl⟩
    exact Spans.separated_iff_isChain.mpr ((List.isChain_map _).mp apart)
  · obtain ⟨l, hne, hseparated, rfl⟩ := h
    refine .row (mt List.map_eq_nil_iff.mp hne) (strictTokens_iff.mpr ⟨l, rfl, rfl⟩) ?_
    exact (List.isChain_map _).mpr (Spans.separated_iff_isChain.mp hseparated)

theorem isStrictEntry_iff {w : List Char} {name : String} :
    IsStrictEntry w name ↔
      ∃ e : Entry, (e.WellFormed ∧ ¬ e.IsEmpty) ∧ e.chars = w ∧ e.name = name := by
  refine ⟨fun h => ?_, fun h => ?_⟩
  · obtain ⟨validName, strict⟩ := h
    obtain ⟨l, hne, hseparated, rfl⟩ := isStrictSpec_iff.mp strict
    exact ⟨⟨name, l⟩, ⟨⟨validName, hseparated⟩, hne⟩, rfl, rfl⟩
  · obtain ⟨e, ⟨he, hne⟩, rfl, rfl⟩ := h
    exact .entry he.name (isStrictSpec_iff.mpr ⟨e.spans, hne, he.separated, rfl⟩)

theorem isStrictList_iff {s : List Char} :
    IsStrictList s ↔ ∃ c : Capabilities, c.WellFormed ∧ c.chars = s := by
  have hrow : ∀ w name, IsStrictEntry w name ↔
      ∃ e : Entry, (e.WellFormed ∧ ¬ e.IsEmpty) ∧ e.chars = w ∧ e.name = name :=
    fun _ _ => isStrictEntry_iff
  refine ⟨fun h => ?_, fun h => ?_⟩
  · cases h with
    | empty => exact ⟨Capabilities.empty, Capabilities.WellFormed.empty, rfl⟩
    | row nonempty entries ascending =>
        obtain ⟨l, hl, rfl, rfl⟩ := (forall₂_iff_exists_map hrow).mp entries
        refine ⟨⟨l⟩, ⟨List.pairwise_map.mp ascending, ?_, ?_⟩, rfl⟩
        · intro e he
          exact (hl e he).1
        · intro e he
          exact (hl e he).2
  · obtain ⟨c, hc, rfl⟩ := h
    by_cases hempty : c.entries = []
    · unfold Capabilities.chars
      rw [hempty]
      exact .empty
    · have hentries : ∀ e ∈ c.entries, e.WellFormed ∧ ¬ e.IsEmpty :=
        fun e he => ⟨hc.entry e he, hc.nonempty e he⟩
      refine .row (mt List.map_eq_nil_iff.mp hempty) ?_ (List.pairwise_map.mpr hc.ascending)
      exact (forall₂_iff_exists_map hrow).mpr ⟨_, hentries, rfl, rfl⟩

/-! ### Canonical is what is written -/

theorem isCanonical_iff_exists_encode {s : String} :
    IsCanonical s ↔ ∃ c : Capabilities, c.WellFormed ∧ c.encode = s := by
  refine ⟨fun h => ?_, fun h => ?_⟩
  · cases hparse : Capabilities.parse s with
    | error fault => exact absurd h (not_isCanonical_of_not_parse hparse)
    | ok c =>
        exact ⟨c, Capabilities.wellFormed_of_parse hparse, (isCanonical_iff_of_parse hparse).mp h⟩
  · obtain ⟨c, hc, rfl⟩ := h
    exact hc.isCanonical_encode

/-- **A text is canonical exactly when it is strict**, which is when it is written for some
capabilities that can come about. -/
theorem isCanonical_exact (s : String) :
    (IsCanonical s ↔ IsStrictList s.toList) ∧
    (IsCanonical s ↔ ∃ c : Capabilities, c.Reachable ∧ c.encode = s) := by
  refine ⟨?_, ?_⟩
  · rw [isCanonical_iff_exists_encode, isStrictList_iff]
    refine exists_congr fun c => and_congr_right fun _ => ?_
    unfold Capabilities.encode
    rw [← String.toList_inj, String.toList_ofList]
  · rw [isCanonical_iff_exists_encode]
    simp only [Capabilities.reachable_iff_wellFormed]

/-- A canonical text, and one with a leading zero, a span of one version in two bounds, spans
side by side, a repeated name, names out of order, and a blank too many or of another kind. -/
example : IsCanonical "Cons=0,2-3 Link=1" ∧
    ∀ s ∈ ["Cons=00,2-3 Link=1", "Cons=0,2-3 Link=1-1", "Cons=0-1,2-3 Link=1",
      "Cons=0 Cons=2-3 Link=1", "Link=1 Cons=0,2-3", "Cons=0,2-3 Link=1 ",
      "Cons=0,2-3\tLink=1"], ¬ IsCanonical s := by
  decide +kernel

end Listing

end Subprotocol

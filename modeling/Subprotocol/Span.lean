/-
Spans: runs of consecutive protocol versions.

A version is a number below 2^32, and a span holds every version from `low` to
`high`, both included.  The bounds are ordered and fit by construction, so a span
is never empty and never reaches past the last version; whatever computes bounds
goes through `Span.ofBounds` and has to say what it does when they fail.

Bounds are kept as natural numbers.  The version after the last one is then simply
2^32, and `Meets` can ask about `high + 1` without a special case at the top.
-/
import Subprotocol.Text.Decimal

namespace Subprotocol

/-- The last version of a subprotocol: version numbers fit in 32 bits. -/
def lastVersion : Nat := 4294967295

/-- The versions from `low` to `high`, both included. -/
structure Span where
  low : Nat
  high : Nat
  ordered : low ≤ high
  bounded : high ≤ lastVersion
deriving DecidableEq

namespace Span

/-- Why two numbers are not the bounds of a span. -/
inductive Fault
  | inverted
  | tooLarge
deriving DecidableEq

def Fault.message : Fault → String
  | .inverted => "version range low bound exceeds high bound"
  | .tooLarge => "version range high bound exceeds the last version"

/-- The span from `low` to `high`. -/
def ofBounds (low high : Nat) : Except Fault Span :=
  if ordered : low ≤ high then
    if bounded : high ≤ lastVersion then .ok ⟨low, high, ordered, bounded⟩
    else .error .tooLarge
  else .error .inverted

theorem ofBounds_low_high (s : Span) : ofBounds s.low s.high = .ok s := by
  simp [ofBounds, s.ordered, s.bounded]

/-! ### What a span holds -/

instance : Membership Nat Span := ⟨fun s v => s.low ≤ v ∧ v ≤ s.high⟩

theorem mem_iff {s : Span} {v : Nat} : v ∈ s ↔ s.low ≤ v ∧ v ≤ s.high := Iff.rfl

theorem low_mem (s : Span) : s.low ∈ s := ⟨Nat.le_refl _, s.ordered⟩

theorem high_mem (s : Span) : s.high ∈ s := ⟨s.ordered, Nat.le_refl _⟩

instance (v : Nat) (s : Span) : Decidable (v ∈ s) :=
  inferInstanceAs (Decidable (_ ∧ _))

/-- How many versions the span holds. -/
def size (s : Span) : Nat := s.high - s.low + 1

/-- The span holds one version only. -/
def IsSingle (s : Span) : Prop := s.low = s.high

instance (s : Span) : Decidable s.IsSingle := inferInstanceAs (Decidable (_ = _))

/-! ### Two spans

Spans that overlap or lie side by side leave no version between them, so their
hull holds exactly what the two hold.  Apart from that the hull holds more.
-/

/-- No version lies strictly between the two spans. -/
def Meets (a b : Span) : Prop := a.low ≤ b.high + 1 ∧ b.low ≤ a.high + 1

instance (a b : Span) : Decidable (a.Meets b) := inferInstanceAs (Decidable (_ ∧ _))

theorem meets_comm (a b : Span) : a.Meets b ↔ b.Meets a := and_comm

/-- Of the span that starts first only the end matters, and of the other one only the start. -/
theorem meets_iff_of_low_le {a b : Span} (h : a.low ≤ b.low) : a.Meets b ↔ b.low ≤ a.high + 1 := by
  have hstart : a.low ≤ b.high + 1 := by
    have hordered := b.ordered
    omega
  exact and_iff_right hstart

theorem lt_low_of_not_meets {a b : Span} (h : ¬ a.Meets b) (hstart : a.low ≤ b.high + 1) :
    a.high + 1 < b.low :=
  Nat.lt_of_not_le fun hle => h ⟨hstart, hle⟩

/-- Of two spans that do not meet, one lies clear below the other. -/
theorem not_meets_iff {a b : Span} : ¬ a.Meets b ↔ a.high + 1 < b.low ∨ b.high + 1 < a.low := by
  unfold Meets
  omega

/-- The smallest span that holds both. -/
def hull (a b : Span) : Span where
  low := min a.low b.low
  high := max a.high b.high
  ordered := by have := a.ordered; omega
  bounded := by have := a.bounded; have := b.bounded; omega

@[simp] theorem low_hull (a b : Span) : (a.hull b).low = min a.low b.low := rfl

@[simp] theorem high_hull (a b : Span) : (a.hull b).high = max a.high b.high := rfl

theorem mem_hull_iff {a b : Span} (h : a.Meets b) {v : Nat} :
    v ∈ a.hull b ↔ v ∈ a ∨ v ∈ b := by
  have := a.ordered
  have := b.ordered
  simp only [Meets, mem_iff, low_hull, high_hull] at *
  omega

/-- Spans are ordered by their low bounds, and by their high bounds where those agree. -/
instance : Ord Span := ⟨fun a b => (compare a.low b.low).then (compare a.high b.high)⟩

/-! ### Written forms -/

/-- `v` for a single version and `low-high` for any other span. -/
def chars (s : Span) : List Char :=
  if s.IsSingle then Decimal.digits s.low
  else Decimal.digits s.low ++ '-' :: Decimal.digits s.high

theorem chars_of_eq {s : Span} (h : s.low = s.high) : s.chars = Decimal.digits s.low :=
  if_pos h

theorem chars_of_lt {s : Span} (h : s.low < s.high) :
    s.chars = Decimal.digits s.low ++ '-' :: Decimal.digits s.high :=
  if_neg (Nat.ne_of_lt h)

def text (s : Span) : String := String.ofList s.chars

/-- The form used in diagnostics, which always shows both bounds. -/
def inspect (s : Span) : String :=
  "VersionRange(" ++ s.low.repr ++ "-" ++ s.high.repr ++ ")"

end Span

end Subprotocol

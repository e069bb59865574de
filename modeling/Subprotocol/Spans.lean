/-
Sets of versions, as ascending lists of separate spans.

Any set of versions that a list can write is a union of finitely many spans, and
there is one shortest way to write it: ascending, with at least one absent version
between each span and the next.  `Separated` says that, and it is what makes equal
sets equal lists.  `insert` restores it by joining the new span with every span it
meets; since the list ascends, those stand next to each other.

`remove` works span by span.  A cursor walks from the low bound upwards, each cover
in its way lets the versions below it out and moves the cursor behind it, and what
the covers leave free are the `gaps`.  The walk is exact when the covers ascend.
For covers in any order it still yields only versions of the span, in ascending
pieces that do not meet, because a cover behind the cursor is passed over.
-/
import Subprotocol.Span

namespace Subprotocol

/-- A set of versions, written as spans. -/
abbrev Spans := List Span

namespace Spans

/-- Each span ends at least two below the start of every later one. -/
def Separated (l : Spans) : Prop := l.Pairwise fun a b => a.high + 1 < b.low

instance (l : Spans) : Decidable l.Separated := inferInstanceAs (Decidable (List.Pairwise _ _))

/-- Some span of the list holds `v`. -/
def Holds (l : Spans) (v : Nat) : Prop := ∃ s ∈ l, v ∈ s

instance (l : Spans) (v : Nat) : Decidable (l.Holds v) :=
  inferInstanceAs (Decidable (∃ s ∈ l, v ∈ s))

/-- The first span that does not end below `v` holds it.  On a separated list no
other span could. -/
def supports (l : Spans) (v : Nat) : Bool :=
  match l.find? (v ≤ ·.high) with
  | some s => v ∈ s
  | none => false

/-- How many versions the spans hold, each span counted by itself. -/
def count (l : Spans) : Nat := l.foldr (fun s n => s.size + n) 0

/-! ### Adding a span -/

/-- `s` joined with the spans at the front that it meets, followed by the rest. -/
def absorb (s : Span) : Spans → Spans
  | [] => [s]
  | r :: rest => if s.Meets r then absorb (s.hull r) rest else s :: r :: rest

/-- The list with the versions of `s` added. -/
def insert (l : Spans) (s : Span) : Spans :=
  l.takeWhile (·.high + 1 < s.low) ++ absorb s (l.dropWhile (·.high + 1 < s.low))

/-- The list with the versions of every span of `new` added, one after the other. -/
def insertAll (l new : Spans) : Spans := new.foldl insert l

/-- The spans of `l`, in whatever order they come, as a separated list. -/
def ofList (l : Spans) : Spans := insertAll [] l

/-! ### Taking versions away -/

/-- The bounds of what `covers` leave free between `cursor` and `high`. -/
def gaps (high : Nat) : (covers : Spans) → (cursor : Nat) → List (Nat × Nat)
  | [], cursor => if cursor ≤ high then [(cursor, high)] else []
  | c :: rest, cursor =>
    if c.high < cursor ∨ high < c.low then gaps high rest cursor
    else if cursor < c.low then (cursor, c.low - 1) :: gaps high rest (c.high + 1)
    else gaps high rest (c.high + 1)

/-- The spans with the given bounds. -/
def ofGaps (bounds : List (Nat × Nat)) : Spans :=
  bounds.filterMap fun b => (Span.ofBounds b.1 b.2).toOption

/-- The versions of `l` that the walk along `covers` leaves free. -/
def remove (l covers : Spans) : Spans :=
  l.flatMap fun s => ofGaps (gaps s.high covers s.low)

/-! ### Written form -/

/-- The spans joined by commas. -/
def chars (l : Spans) : List Char := [','].intercalate (l.map Span.chars)

end Spans

end Subprotocol

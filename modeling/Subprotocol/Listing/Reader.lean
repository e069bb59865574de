/-
Reading protocol lists.

    list  ::= entry (blank entry)*
    entry ::= name "=" spec
    spec  ::= token ("," token)*
    token ::= numeral | numeral "-" numeral

A list is cut at its blanks, each entry at its `=`, each spec at its commas and each
token at its first hyphen, and every cut is unambiguous because a name excludes the
characters that are cut at.  Repeated names and overlapping tokens are no defects;
their versions are merged.

There is never a partial result: the pieces are read from left to right, and the
first one that fails decides the answer for the whole list.
-/
import Subprotocol.Capabilities

namespace Subprotocol

/-! ### Tokens -/

/-- The version written in `s`. -/
def readVersion (s : List Char) : Except Listing.Fault Nat :=
  match Decimal.read lastVersion s with
  | .ok v => .ok v
  | .error .notNumeral => .error (.malformed (.badNumber (String.ofList s)))
  | .error .tooLarge => .error (.outOfRange (String.ofList s))

/-- The span with the given bounds, or the fault of a list that states them. -/
def Span.between (low high : Nat) : Except Listing.Fault Span :=
  match Span.ofBounds low high with
  | .ok s => .ok s
  | .error .inverted => .error (.inverted low high)
  | .error .tooLarge => .error (.outOfRange high.repr)

/-- The span written in `token`: its low bound is judged first, then its high bound,
then their order. -/
def Span.read (token : List Char) : Except Listing.Fault Span :=
  match Text.cut? '-' token with
  | none => do
    let v ← readVersion token
    Span.between v v
  | some (before, after) => do
    let low ← readVersion before
    let high ← readVersion after
    Span.between low high

/-! ### Entries -/

/-- The spans written in `spec`, as they come. -/
def Spans.read (spec : List Char) : Except Listing.Fault Spans :=
  (spec.splitOn ',').mapM Span.read

/-- The entry written in `s`, which is taken as it is and not trimmed. -/
def Entry.read (s : List Char) : Except Listing.Fault Entry :=
  match Text.cut? '=' s with
  | none => .error (.malformed (.missingEquals (String.ofList s)))
  | some (before, spec) =>
    let name := String.ofList before
    if '=' ∈ spec then .error (.malformed (.repeatedEquals (String.ofList s)))
    else if ¬ ValidName name then .error (.malformed (.badName name))
    else if spec = [] then .error (.malformed (.noVersions name))
    else do
      let spans ← Spans.read spec
      pure ⟨name, Spans.ofList spans⟩

def Entry.parse (s : String) : Except Listing.Fault Entry := Entry.read s.toList

/-! ### Lists -/

/-- The entries written in `s`, as they come. -/
def Listing.readEntries (s : List Char) : Except Listing.Fault (List Entry) :=
  (Text.words s).mapM Entry.read

namespace Capabilities

/-- The capabilities listed in `s`.  A list of blanks lists nothing. -/
def read (s : List Char) : Except Listing.Fault Capabilities := do
  let entries ← Listing.readEntries s
  pure (ofEntries entries)

def parse (s : String) : Except Listing.Fault Capabilities := read s.toList

/-- Like `parse`, for callers to whom a list that lists nothing is a mistake. -/
def parseNonblank (s : String) : Except Listing.Fault Capabilities := do
  let c ← parse s
  if c.IsEmpty then .error .empty else pure c

end Capabilities

end Subprotocol

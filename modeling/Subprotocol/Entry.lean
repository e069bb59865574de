/-
Entries: one named subprotocol and the versions of it that someone speaks.

Names are opaque.  Any text is a name if it can stand before the `=` of a list and
be told apart from what surrounds it, so the characters with a meaning in a list
and the blanks are excluded, and nothing else is.

An entry without spans is allowed on its own, as the starting point for adding
versions and as the result of taking all of them away.  A set of capabilities never
holds one.
-/
import Subprotocol.Listing.Fault
import Subprotocol.Spans

namespace Subprotocol

/-- `c` may stand in a name. -/
def isNameChar (c : Char) : Bool :=
  c ≠ '=' && c ≠ ',' && c ≠ '-' && !Text.isBlank c

/-- `name` can stand before the `=` of an entry. -/
def ValidName (name : String) : Prop :=
  name.toList ≠ [] ∧ ∀ c ∈ name.toList, isNameChar c = true

instance (name : String) : Decidable (ValidName name) :=
  decidable_of_iff (name.toList ≠ [] ∧ name.toList.all isNameChar = true)
    (by rw [List.all_eq_true, ValidName])

/-- A named subprotocol and its versions. -/
structure Entry where
  name : String
  spans : Spans
deriving DecidableEq

namespace Entry

/-- The entry of that name without versions. -/
def named (name : String) : Except Listing.Fault Entry :=
  if ValidName name then .ok ⟨name, []⟩ else .error (.malformed (.badName name))

/-- The entry with the versions of all `spans`, which come in any order. -/
def ofSpans (name : String) (spans : Spans) : Except Listing.Fault Entry :=
  (named name).map fun e => { e with spans := Spans.ofList spans }

/-- The name is a valid one and the spans are separate. -/
structure WellFormed (e : Entry) : Prop where
  name : ValidName e.name
  separated : e.spans.Separated

/-! ### Asking an entry -/

def IsEmpty (e : Entry) : Prop := e.spans = []

instance (e : Entry) : Decidable e.IsEmpty := inferInstanceAs (Decidable (_ = _))

def supports (e : Entry) (v : Nat) : Bool := e.spans.supports v

/-- How many versions the entry lists. -/
def count (e : Entry) : Nat := e.spans.count

/-! ### Changing an entry

The name never changes.  `insert` and `absorb` add versions, `remove` takes them
away, and `cleared` takes all of them away.
-/

def insert (e : Entry) (s : Span) : Entry := { e with spans := e.spans.insert s }

/-- The entry with the versions of `other` added.  The name of `other` is ignored. -/
def absorb (e other : Entry) : Entry := { e with spans := e.spans.insertAll other.spans }

def remove (e : Entry) (covers : Spans) : Entry := { e with spans := e.spans.remove covers }

def cleared (e : Entry) : Entry := { e with spans := [] }

/-- One change to an entry. -/
inductive Edit
  | insert (s : Span)
  | absorb (other : Entry)
  | remove (covers : Spans)
  | clear

def apply (e : Entry) : Edit → Entry
  | .insert s => e.insert s
  | .absorb other => e.absorb other
  | .remove covers => e.remove covers
  | .clear => e.cleared

/-- The entry after all of the changes, one after the other. -/
def applyAll (e : Entry) (edits : List Edit) : Entry := edits.foldl apply e

/-! ### Written forms -/

/-- `name=spec`, with an empty spec for an entry without versions. -/
def chars (e : Entry) : List Char := e.name.toList ++ '=' :: e.spans.chars

def text (e : Entry) : String := String.ofList e.chars

/-- The form used in diagnostics. -/
def inspect (e : Entry) : String := "ProtocolEntry(" ++ e.text ++ ")"

end Entry

end Subprotocol

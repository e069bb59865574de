/-
Capabilities: everything a participant speaks, name by name.

This is the unit of exchange.  The entries ascend by name, in the order of code
points, no name occurs twice and no entry is empty; a participant that speaks no
version of a subprotocol does not mention it.  Together with the separated spans of
each entry this leaves one value for each set of name and version pairs, which is
what lets participants compare capabilities by comparing values.

All changes go through `insertEntry`.  It walks to the place of the name, and adds
the versions there or puts the entry in.
-/
import Subprotocol.Entry

namespace Subprotocol

/-- A set of name and version pairs, as entries in the order of their names. -/
structure Capabilities where
  entries : List Entry
deriving DecidableEq

namespace Capabilities

/-- The names ascend, and every entry is well formed and lists some version. -/
structure WellFormed (c : Capabilities) : Prop where
  ascending : c.entries.Pairwise fun a b => a.name < b.name
  entry : ∀ e ∈ c.entries, e.WellFormed
  nonempty : ∀ e ∈ c.entries, ¬ e.IsEmpty

def empty : Capabilities := ⟨[]⟩

def IsEmpty (c : Capabilities) : Prop := c.entries = []

instance (c : Capabilities) : Decidable c.IsEmpty := inferInstanceAs (Decidable (_ = _))

/-! ### Asking -/

def get? (c : Capabilities) (name : String) : Option Entry :=
  c.entries.find? (·.name = name)

/-- The spans listed under `name`, none if the name does not occur. -/
def spansOf (c : Capabilities) (name : String) : Spans :=
  match c.get? name with
  | some e => e.spans
  | none => []

def supports (c : Capabilities) (name : String) (v : Nat) : Bool :=
  match c.get? name with
  | some e => e.supports v
  | none => false

def names (c : Capabilities) : List String := c.entries.map Entry.name

/-- Some entry lists version `v` under `name`. -/
def Lists (c : Capabilities) (name : String) (v : Nat) : Prop :=
  ∃ e ∈ c.entries, e.name = name ∧ e.spans.Holds v

/-! ### Adding -/

/-- `e` added to the ascending entries `l`. -/
def place (e : Entry) : List Entry → List Entry
  | [] => [e]
  | f :: rest =>
    if e.name = f.name then f.absorb e :: rest
    else if e.name < f.name then e :: f :: rest
    else f :: place e rest

/-- The capabilities with the versions of `e` added under its name.  An empty entry
adds nothing. -/
def insertEntry (c : Capabilities) (e : Entry) : Capabilities :=
  if e.IsEmpty then c else ⟨place e c.entries⟩

/-- The capabilities with the versions of `s` added under `name`.  Only a name that is
not there yet has to be checked. -/
def insertSpan (c : Capabilities) (name : String) (s : Span) : Except Listing.Fault Capabilities :=
  if (c.get? name).isSome ∨ ValidName name then .ok (c.insertEntry ⟨name, [s]⟩)
  else .error (.malformed (.badName name))

/-- The capabilities with every entry of `other` added. -/
def merge (c other : Capabilities) : Capabilities := other.entries.foldl insertEntry c

/-- The capabilities listed by `entries`, which come in any order. -/
def ofEntries (entries : List Entry) : Capabilities := entries.foldl insertEntry empty

/-- The capabilities of all the participants together. -/
def union (parts : List Capabilities) : Capabilities := parts.foldl merge empty

end Capabilities

end Subprotocol

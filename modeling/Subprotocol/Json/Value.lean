/-
JSON values, as a document states them.

Nothing that a document says is thrown away before someone decides what it means.  A
number keeps its literal, so that `1`, `1.0` and `1e0` stay apart, and an object keeps
its fields in their order with repetitions.

A string literal can escape one half of a surrogate pair without the other.  Such a
literal is well formed and names no text; it is kept as `none`, and refused where a
text is needed and not where the value is passed over.
-/
import Subprotocol.Text.Decimal

namespace Subprotocol

/-- A JSON value. -/
inductive Json
  | null
  | bool (b : Bool)
  | number (literal : String)
  | string (text : Option String)
  | array (items : List Json)
  | object (fields : List (Option String × Json))

namespace Json

/-! ### Making values -/

def ofText (s : String) : Json := .string (some s)

def ofNat (n : Nat) : Json := .number n.repr

def ofInt (n : Int) : Json := .number n.repr

/-- An object with the given fields. -/
def record (fields : List (String × Json)) : Json := .object (fields.map fun f => (some f.1, f.2))

/-! ### Taking values apart -/

def text? : Json → Option String
  | .string text => text
  | _ => none

def items? : Json → Option (List Json)
  | .array items => some items
  | _ => none

/-- The number, if its literal is that of a natural number up to `top`. -/
def natural? (top : Nat) : Json → Option Nat
  | .number literal => (Decimal.read top literal.toList).toOption
  | _ => none

/-- The value of the last field called `name`. -/
def lastField? (name : String) : Json → Option Json
  | .object fields => (fields.reverse.find? (·.1 = some name)).map Prod.snd
  | _ => none

/-- The value of the field called `name`, and `none` inside if there is none.  A repeated
field has no value. -/
def onlyField? (fields : List (Option String × Json)) (name : String) : Option (Option Json) :=
  match fields.filter (·.1 = some name) with
  | [] => some none
  | [field] => some (some field.2)
  | _ => none

/-- The values of the fields called `names`, in that order, each of which may be absent.
A record is written as an object, whose other fields are passed over, or as the array of
its values, where the last ones may be left out. -/
def fields? (names : List String) : Json → Option (List (Option Json))
  | .object fields =>
    if fields.any (·.1.isNone) then none else names.mapM (onlyField? fields)
  | .array items =>
    if names.length < items.length then none
    else some (items.map some ++ List.replicate (names.length - items.length) none)
  | _ => none

end Json

end Subprotocol

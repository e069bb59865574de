/-
Reading JSON documents.

The tokens are taken one by one.  What is still open is kept on a stack, the innermost
array or object first, so documents of any depth are read in one pass over their
tokens.  The state says what may come next; a token that may not come refuses the
document, and so does a document that ends before its value does or goes on behind it.
-/
import Subprotocol.Json.Token

namespace Subprotocol.Json

/-- An array or object that is still open, with what it holds so far, the last first.
An open object waits for the value of `key`. -/
inductive Frame
  | array (done : List Json)
  | object (done : List (Option String × Json)) (key : Option String)

/-- What may come next.  `stack` holds what is open. -/
inductive Expect
  /-- A value. -/
  | value (stack : List Frame)
  /-- The first item of an array, or its end. -/
  | firstItem (stack : List Frame)
  /-- The first key of an object, or its end. -/
  | firstKey (stack : List Frame)
  /-- A key behind a comma. -/
  | key (done : List (Option String × Json)) (stack : List Frame)
  /-- The colon behind a key. -/
  | colon (done : List (Option String × Json)) (key : Option String) (stack : List Frame)
  /-- A comma or an end, behind the complete value `j`. -/
  | sign (j : Json) (stack : List Frame)

/-- The state behind the first token of a value. -/
def beginValue (stack : List Frame) : Token → Option Expect
  | .scalar j => some (.sign j stack)
  | .openArray => some (.firstItem stack)
  | .openObject => some (.firstKey stack)
  | _ => none

/-- The state behind the sign that follows the value `j`. -/
def endValue (j : Json) : List Frame → Token → Option Expect
  | .array done :: stack, .comma => some (.value (.array (j :: done) :: stack))
  | .array done :: stack, .closeArray => some (.sign (.array (j :: done).reverse) stack)
  | .object done key :: stack, .comma => some (.key ((key, j) :: done) stack)
  | .object done key :: stack, .closeObject =>
    some (.sign (.object ((key, j) :: done).reverse) stack)
  | _, _ => none

def accept : Expect → Token → Option Expect
  | .value stack, token => beginValue stack token
  | .firstItem stack, .closeArray => some (.sign (.array []) stack)
  | .firstItem stack, token => beginValue (.array [] :: stack) token
  | .firstKey stack, .closeObject => some (.sign (.object []) stack)
  | .firstKey stack, .scalar (.string key) => some (.colon [] key stack)
  | .key done stack, .scalar (.string key) => some (.colon done key stack)
  | .colon done key stack, .colon => some (.value (.object done key :: stack))
  | .sign j stack, token => endValue j stack token
  | _, _ => none

/-- The value of the document `s`. -/
def read (s : String) : Option Json :=
  ((tokens? s.toList).bind fun tokens => tokens.foldlM accept (.value [])).bind fun
    | .sign j [] => some j
    | _ => none

end Subprotocol.Json

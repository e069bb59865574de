/-
Writing JSON documents.

A string escapes the quote, the backslash and the controls, and shows every other
character as it is.  `compact` puts everything on one line without blanks.  `pretty`
gives each item and each field a line of its own, two spaces further in than what
holds it, and leaves empty arrays and objects on one line; neither ends the text with
a line break.
-/
import Subprotocol.Json.Value

namespace Subprotocol.Json

/-- What stands between the quotes for `c`. -/
def escape (c : Char) : List Char :=
  match c with
  | '"' => ['\\', '"']
  | '\\' => ['\\', '\\']
  | '\x08' => ['\\', 'b']
  | '\x0c' => ['\\', 'f']
  | '\n' => ['\\', 'n']
  | '\r' => ['\\', 'r']
  | '\t' => ['\\', 't']
  | c =>
    if c.toNat < 0x20 then
      ['\\', 'u', '0', '0', Nat.digitChar (c.toNat / 16), Nat.digitChar (c.toNat % 16)]
    else [c]

def literal (s : String) : String := String.ofList ('"' :: s.toList.flatMap escape ++ ['"'])

/-- `items` between `left` and `right`, each on a line of its own that begins with
`indent` two spaces deeper, or all on one line if there is no indent. -/
def enclose (left right : String) (indent : Option Nat) (items : List String) : String :=
  match indent, items with
  | none, items => left ++ ",".intercalate items ++ right
  | some _, [] => left ++ right
  | some n, items =>
    let line := fun n => "\n" ++ String.ofList (List.replicate n ' ')
    left ++ line (n + 2) ++ ("," ++ line (n + 2)).intercalate items ++ line n ++ right

/-- The sign between a key and its value. -/
def colonSign (indent : Option Nat) : String := if indent.isSome then ": " else ":"

mutual

/-- The text of a value, over several lines if there is an indent. -/
def write (indent : Option Nat) : Json → String
  | .null => "null"
  | .bool b => if b then "true" else "false"
  | .number literal => literal
  | .string text => literal (text.getD "")
  | .array items => enclose "[" "]" indent (writeItems (indent.map (· + 2)) items)
  | .object fields => enclose "\x7b" "\x7d" indent (writeFields (indent.map (· + 2)) fields)

def writeItems (indent : Option Nat) : List Json → List String
  | [] => []
  | j :: rest => write indent j :: writeItems indent rest

def writeFields (indent : Option Nat) : List (Option String × Json) → List String
  | [] => []
  | (key, j) :: rest =>
    (literal (key.getD "") ++ colonSign indent ++ write indent j) :: writeFields indent rest

end

def compact (j : Json) : String := j.write none

def pretty (j : Json) : String := j.write (some 0)

end Subprotocol.Json

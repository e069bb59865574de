/-
The tokens of a JSON document.

A document is read character by character.  Between tokens, blanks are skipped; JSON
knows four of them.  A quote opens a string, which the next quote that is not escaped
closes.  Letters, digits and the signs of numbers that stand together form one word,
which has to be a constant or a number literal as a whole: the grammar never lets two
of those meet, so nothing is lost by not cutting between them.

Strings are collected as code units and put together at their end.  Two escapes side
by side can be the two halves of a surrogate pair; a half without its partner leaves
the string without a text.
-/
import Subprotocol.Json.Value

namespace Subprotocol.Json

/-- A token that is a value by itself, or one of the signs between values. -/
inductive Token
  | scalar (j : Json)
  | openArray
  | closeArray
  | openObject
  | closeObject
  | colon
  | comma

/-! ### Words -/

/-- The rest of `s` behind at least one digit and all that follow it. -/
def skipDigits? (s : List Char) : Option (List Char) :=
  if (s.takeWhile Char.isDigit).isEmpty then none else some (s.dropWhile Char.isDigit)

/-- The rest of `s` behind the digits before the point, which have no needless zero. -/
def skipWhole? : List Char → Option (List Char)
  | '0' :: rest => some rest
  | s => skipDigits? s

def skipFraction? : List Char → Option (List Char)
  | '.' :: rest => skipDigits? rest
  | s => some s

def skipExponent? : List Char → Option (List Char)
  | [] => some []
  | c :: rest =>
    if c = 'e' ∨ c = 'E' then
      match rest with
      | '+' :: digits | '-' :: digits => skipDigits? digits
      | digits => skipDigits? digits
    else some (c :: rest)

/-- `s` is a number literal. -/
def isNumber (s : List Char) : Bool :=
  let s := match s with
    | '-' :: rest => rest
    | s => s
  match ((skipWhole? s).bind skipFraction?).bind skipExponent? with
  | some [] => true
  | _ => false

/-- `c` may stand in a constant or a number. -/
def isWordChar (c : Char) : Bool := c.isAlphanum || c = '-' || c = '+' || c = '.'

def word? (s : List Char) : Option Json :=
  if s = "null".toList then some .null
  else if s = "true".toList then some (.bool true)
  else if s = "false".toList then some (.bool false)
  else if isNumber s then some (.number (String.ofList s))
  else none

/-! ### Strings -/

/-- The text that the code units stand for. -/
def assemble : List Nat → Option (List Char)
  | [] => some []
  | u :: rest =>
    if 0xd800 ≤ u ∧ u < 0xdc00 then
      match rest with
      | v :: rest =>
        if 0xdc00 ≤ v ∧ v < 0xe000 then
          (assemble rest).map fun t =>
            Char.ofNat (0x10000 + (u - 0xd800) * 0x400 + (v - 0xdc00)) :: t
        else none
      | [] => none
    else if 0xdc00 ≤ u ∧ u < 0xe000 then none
    else (assemble rest).map fun t => Char.ofNat u :: t

/-- The string with the given code units, the last one first. -/
def ofUnits (units : List Nat) : Json := .string ((assemble units.reverse).map String.ofList)

/-- The code unit of an escape of one letter. -/
def shortEscape? : Char → Option Nat
  | '"' => some 0x22
  | '\\' => some 0x5c
  | '/' => some 0x2f
  | 'b' => some 0x08
  | 'f' => some 0x0c
  | 'n' => some 0x0a
  | 'r' => some 0x0d
  | 't' => some 0x09
  | _ => none

def hexDigit? (c : Char) : Option Nat :=
  if c.isDigit then some (c.toNat - '0'.toNat)
  else if 'a' ≤ c ∧ c ≤ 'f' then some (c.toNat - 'a'.toNat + 10)
  else if 'A' ≤ c ∧ c ≤ 'F' then some (c.toNat - 'A'.toNat + 10)
  else none

/-! ### Reading -/

/-- Where the reader stands.  What was collected so far has its last part first. -/
inductive Mode
  | between
  | word (chars : List Char)
  | string (units : List Nat)
  | escape (units : List Nat)
  | hex (units : List Nat) (digits : Nat) (value : Nat)

/-- The tokens so far, the last one first, and the mode. -/
structure Lexer where
  tokens : List Token
  mode : Mode

/-- A character that no word and no string is open for. -/
def feedBetween (tokens : List Token) (c : Char) : Option Lexer :=
  match c with
  | ' ' | '\t' | '\n' | '\r' => some ⟨tokens, .between⟩
  | '[' => some ⟨.openArray :: tokens, .between⟩
  | ']' => some ⟨.closeArray :: tokens, .between⟩
  | '\x7b' => some ⟨.openObject :: tokens, .between⟩
  | '\x7d' => some ⟨.closeObject :: tokens, .between⟩
  | ':' => some ⟨.colon :: tokens, .between⟩
  | ',' => some ⟨.comma :: tokens, .between⟩
  | '"' => some ⟨tokens, .string []⟩
  | c => if isWordChar c then some ⟨tokens, .word [c]⟩ else none

def feed (l : Lexer) (c : Char) : Option Lexer :=
  match l.mode with
  | .between => feedBetween l.tokens c
  | .word chars =>
    if isWordChar c then some { l with mode := .word (c :: chars) }
    else (word? chars.reverse).bind fun j => feedBetween (.scalar j :: l.tokens) c
  | .string units =>
    if c = '"' then some ⟨.scalar (ofUnits units) :: l.tokens, .between⟩
    else if c = '\\' then some { l with mode := .escape units }
    else if c.toNat < 0x20 then none
    else some { l with mode := .string (c.toNat :: units) }
  | .escape units =>
    if c = 'u' then some { l with mode := .hex units 0 0 }
    else (shortEscape? c).map fun u => { l with mode := .string (u :: units) }
  | .hex units digits value =>
    (hexDigit? c).map fun d =>
      if digits = 3 then { l with mode := .string ((value * 16 + d) :: units) }
      else { l with mode := .hex units (digits + 1) (value * 16 + d) }

/-- The tokens of the document `s`. -/
def tokens? (s : List Char) : Option (List Token) :=
  (s.foldlM feed ⟨[], .between⟩).bind fun l =>
    match l.mode with
    | .between => some l.tokens.reverse
    | .word chars => (word? chars.reverse).map fun j => (.scalar j :: l.tokens).reverse
    | _ => none

end Subprotocol.Json

/-
Quoted texts, as messages show them.

A message that names a piece of foreign text puts it between double quotes, so
that its ends can be seen, and writes what could be misread by an escape: the
quote and the backslash, the four controls that have a short escape, and every
unprintable character by its code point in hexadecimal.  An apostrophe needs no
escape between double quotes.
-/
import Subprotocol.Text.Unprintable

namespace Subprotocol.Text

/-- What stands between the quotes for `c`. -/
def escape (c : Char) : List Char :=
  match c with
  | '"' => ['\\', '"']
  | '\\' => ['\\', '\\']
  | '\x00' => ['\\', '0']
  | '\t' => ['\\', 't']
  | '\n' => ['\\', 'n']
  | '\r' => ['\\', 'r']
  | c => if isUnprintable c then ['\\', 'u', '\x7b'] ++ Nat.toDigits 16 c.toNat ++ ['\x7d'] else [c]

/-- `s` between double quotes. -/
def quoted (s : String) : String :=
  String.ofList ('"' :: s.toList.flatMap escape ++ ['"'])

end Subprotocol.Text

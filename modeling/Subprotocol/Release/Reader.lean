/-
Reading the name of a release.

Programs announce themselves by a platform text such as `Tor 0.2.9.1-alpha (git-1f)`.
The program's name may stand in front, once, followed by exactly one space; the first
word after it is the release, and whatever follows is ignored.  The word is cut at its
first hyphen into numbers and tag, so a tag may hold hyphens and dots of its own.

Blanks are trimmed at both ends before the program's name is looked for.  A text that
holds the name alone therefore keeps it, and the name is then what is judged, and
refused, as a release.  Only a text of blanks has nothing to judge.
-/
import Subprotocol.Release
import Subprotocol.Text.Blank

namespace Subprotocol.Release

/-- Why a text names no release. -/
inductive Fault
  | empty
  | malformed (core : String)
deriving DecidableEq

def Fault.message : Fault → String
  | .empty => "empty release version"
  | .malformed core => "malformed release version: " ++ core

/-- The largest number in a release. -/
def largestNumber : Nat := 4294967295

/-- What may stand in front of a release. -/
def program : List Char := "Tor ".toList

/-- The text without the program's name in front. -/
def dropProgram (s : List Char) : List Char := (program.isPrefixOf? s).getD s

/-- The word of `s` that has to be the release. -/
def core? (s : List Char) : Option (List Char) :=
  (Text.words (dropProgram (Text.trim s))).head?

/-- The numbers between the dots of `s`. -/
def readNumbers (s : List Char) : Option (List Nat) :=
  (s.splitOn '.').mapM fun part => (Decimal.read largestNumber part).toOption

/-- The release with the numbers written in `s`, of which there are three or four. -/
def ofNumbers (s : List Char) (status : Status) : Option Release :=
  match readNumbers s with
  | some [major, minor, micro] => some ⟨major, minor, micro, 0, status⟩
  | some [major, minor, micro, patch] => some ⟨major, minor, micro, patch, status⟩
  | _ => none

/-- The release that the word `core` is the name of. -/
def ofCore (core : List Char) : Option Release :=
  match Text.cut? '-' core with
  | none => ofNumbers core .final
  | some (numbers, tag) => if tag = [] then none else ofNumbers numbers (Status.ofTag tag)

/-- The release named by `s`. -/
def read (s : List Char) : Except Fault Release :=
  match core? s with
  | none => .error .empty
  | some core =>
    match ofCore core with
    | some r => .ok r
    | none => .error (.malformed (String.ofList core))

def parse (s : String) : Except Fault Release := read s.toList

/-! ### Many names -/

/-- The releases among `names`, oldest first. -/
def sorted (names : List String) : List Release :=
  (names.filterMap fun s => (parse s).toOption).mergeSort fun a b => (compare a b).isLE

/-- How many of `names` name no release. -/
def unreadable (names : List String) : Nat := names.countP fun s => (parse s).toOption.isNone

end Subprotocol.Release

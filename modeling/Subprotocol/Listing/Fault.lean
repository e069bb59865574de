/-
What can be wrong with a written protocol list.

A list is foreign text, and a reader refuses it as a whole at its first defect, so
one `Fault` describes a refusal completely.  Faults of form name the piece of text
that is at fault.  A number that is too large and bounds that are the wrong way
round are kept apart from those, since such a list is well formed and only its
numbers are not.
-/
import Subprotocol.Span
import Subprotocol.Text.Quoted

namespace Subprotocol.Listing

open Text (quoted)

/-- How a piece of a list departs from the form `name=spec`. -/
inductive Malformation
  | missingEquals (entry : String)
  | repeatedEquals (entry : String)
  | badName (name : String)
  | noVersions (name : String)
  | badNumber (text : String)
deriving DecidableEq

def Malformation.message : Malformation → String
  | .missingEquals entry => "missing '=' in " ++ quoted entry
  | .repeatedEquals entry => "more than one '=' in " ++ quoted entry
  | .badName name => "invalid protocol name " ++ quoted name
  | .noVersions name => "no versions listed for " ++ quoted name
  | .badNumber text => "invalid version number " ++ quoted text

/-- Why a text is refused as a protocol list. -/
inductive Fault
  | empty
  | malformed (cause : Malformation)
  | outOfRange (digits : String)
  | inverted (low high : Nat)
deriving DecidableEq

def Fault.message : Fault → String
  | .empty => "protocol list is empty"
  | .malformed cause => "malformed protocol entry: " ++ cause.message
  | .outOfRange digits => "version number out of range: " ++ digits
  | .inverted low high =>
    "invalid version range: " ++ low.repr ++ " is greater than " ++ high.repr

end Subprotocol.Listing

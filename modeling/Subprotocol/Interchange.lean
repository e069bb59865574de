/-
JSON forms of the library's values.

A span is the array of its two bounds and a set of capabilities is its canonical text,
so that a document that embeds one can be compared as a text.  A configuration is a
record with the one field `supported`, which may be left out.

A document can fail to have the right form at all, or have it and state a value that
is refused for the reason that a list with the same content would be.
-/
import Subprotocol.Json.Value
import Subprotocol.Profile.Config

namespace Subprotocol

/-- Why a JSON value is not the form of anything. -/
inductive Interchange.Fault
  | form
  | refused (cause : Listing.Fault)

/-- The reason, where there is more to say than that the form is wrong. -/
def Interchange.Fault.message? : Interchange.Fault → Option String
  | .form => none
  | .refused cause => some cause.message

/-! ### Spans -/

def Span.toJson (s : Span) : Json := .array [.ofNat s.low, .ofNat s.high]

/-- The span with the two bounds, which are literals of natural numbers. -/
def Span.ofJson (j : Json) : Except Interchange.Fault Span :=
  match j.items? with
  | some [low, high] =>
    match low.natural? lastVersion, high.natural? lastVersion with
    | some low, some high => (Span.between low high).mapError .refused
    | _, _ => .error .form
  | _ => .error .form

/-! ### Capabilities -/

def Capabilities.toJson (c : Capabilities) : Json := .ofText c.encode

/-- The capabilities listed by a text, which need not be canonical. -/
def Capabilities.ofJson (j : Json) : Except Interchange.Fault Capabilities :=
  match j.text? with
  | some s => (Capabilities.parse s).mapError .refused
  | none => .error .form

/-! ### Configurations -/

def Config.toJson (config : Config) : Json := .record [("supported", .ofText config.supported)]

/-- The configuration that `j` states.  Fields with other names are passed over.

This is the reader of a document that is held as a tree, where a name has one value, the last
that was given.  A reader that takes the fields from the text one by one, as that of files of
cases does, refuses the second. -/
def Config.ofJson (j : Json) : Except Interchange.Fault Config :=
  let field := match j with
    | .object _ => some (j.lastField? "supported")
    | .array [] => some none
    | .array [item] => some (some item)
    | _ => none
  match field with
  | none => .error .form
  | some none => .ok .default
  | some (some value) =>
    match value.text? with
    | some supported => .ok ⟨supported⟩
    | none => .error .form

end Subprotocol

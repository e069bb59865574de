/-
The canonical text of a set of capabilities.

Participants compare and sign texts, so equal capabilities must have equal texts to
the last byte.  The canonical text lists the entries in the order of their names
with one space between two of them, each spec holds the separated spans of the
entry, a span of one version is written as that version, and numbers have no leading
zeros.  The empty set has the empty text.

A text is canonical when it is the canonical text of what it lists.  The digest of
a set is taken from its canonical text, whatever the hash function, and so depends on
nothing but the set.
-/
import Subprotocol.Blake3
import Subprotocol.Listing.Reader

namespace Subprotocol

namespace Capabilities

/-- The canonical text. -/
def chars (c : Capabilities) : List Char := [' '].intercalate (c.entries.map Entry.chars)

def encode (c : Capabilities) : String := String.ofList c.chars

/-- The form used in diagnostics. -/
def inspect (c : Capabilities) : String := "ProtocolSet(" ++ Text.quoted c.encode ++ ")"

/-- The digest of the canonical text by the function `hash`. -/
def digestBy (hash : List UInt8 → List UInt8) (c : Capabilities) : List UInt8 :=
  hash c.encode.toUTF8.data.toList

/-- The digest by `hash` in lower-case hexadecimal. -/
def fingerprintBy (hash : List UInt8 → List UInt8) (c : Capabilities) : String :=
  Blake3.hex (c.digestBy hash)

/-- The digest of the canonical text, 32 bytes. -/
def digest (c : Capabilities) : List UInt8 := c.digestBy Blake3.hash

/-- The digest in lower-case hexadecimal. -/
def fingerprint (c : Capabilities) : String := c.fingerprintBy Blake3.hash

end Capabilities

namespace Listing

/-- The canonical text of what `s` lists. -/
def canonical (s : String) : Except Fault String := (Capabilities.parse s).map Capabilities.encode

/-- `s` can be read, and is the canonical text of what it lists. -/
def IsCanonical (s : String) : Prop := (canonical s).toOption = some s

instance (s : String) : Decidable (IsCanonical s) := inferInstanceAs (Decidable (_ = _))

end Listing

end Subprotocol

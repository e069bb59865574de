/-
Configured profiles.

A configuration states the local profile as a protocol list.  It is checked once, at
the start, and strictly: the text has to be canonical, so that what is advertised is
what was configured to the last byte, and every name in it has to be known.  A text
that cannot be read at all is reported as such, before the question of its form.
-/
import Subprotocol.Profile

namespace Subprotocol

/-- The local configuration. -/
structure Config where
  /-- The local profile, as a canonical list of known names. -/
  supported : String
deriving DecidableEq

namespace Config

/-- The configuration of a participant that has none. -/
def default : Config := ⟨Profile.native.advertisement⟩

/-- Why a configuration is refused. -/
inductive Fault
  | unreadable (cause : Listing.Fault)
  | notCanonical (given canonical : String)
  | unknown (cause : Known.Fault)
deriving DecidableEq

def Fault.message : Fault → String
  | .unreadable cause => "invalid supported protocols: " ++ cause.message
  | .notCanonical given canonical =>
    "supported protocols not canonical: got " ++ Text.quoted given ++ ", expected " ++
      Text.quoted canonical
  | .unknown cause => cause.message

/-- The profile that the configuration states. -/
def profile (config : Config) : Except Fault Profile :=
  match Capabilities.parse config.supported with
  | .error cause => .error (.unreadable cause)
  | .ok c =>
    if c.encode ≠ config.supported then .error (.notCanonical config.supported c.encode)
    else
      match Profile.ofCapabilities c with
      | .ok p => .ok p
      | .error cause => .error (.unknown cause)

end Config

end Subprotocol

/-
What releases spoke before they said so themselves.

Early releases advertise nothing, and what they speak has to be known.  The history
of the network falls into eras; each begins with some release, and every release
from then on speaks what the era lists, until the next one begins.  The last era is
that of the releases which advertise for themselves, so it lists nothing.

The eras ascend by their first releases in the order of age, where two of them begin
with a tagged release.  A release belongs to the last era that it is not too old for.
-/
import Subprotocol.Release.Reader

namespace Subprotocol

/-- A stretch of the network's history. -/
structure Era where
  since : String
  listing : String

namespace Era

/-- The first release that advertises for itself. -/
def firstAdvertising : String := "0.2.9.3-alpha"

/-- The eras, oldest first. -/
def all : List Era :=
  [⟨"0.2.4.19",
      "Cons=1 Desc=1 DirCache=1 HSDir=1 HSIntro=3 HSRend=1 Link=1-4 LinkAuth=1 Microdesc=1 Relay=1-2"⟩,
    ⟨"0.2.7.5",
      "Cons=1-2 Desc=1-2 DirCache=1 HSDir=1 HSIntro=3 HSRend=1 Link=1-4 LinkAuth=1 Microdesc=1-2 Relay=1-2"⟩,
    ⟨"0.2.9.1-alpha",
      "Cons=1-2 Desc=1-2 DirCache=1 HSDir=1 HSIntro=3 HSRend=1-2 Link=1-4 LinkAuth=1 Microdesc=1-2 Relay=1-2"⟩,
    ⟨firstAdvertising, ""⟩]

/-- The era has begun by the time of `r`. -/
def hasBegun (r : Release) (era : Era) : Bool :=
  match Release.parse era.since with
  | .ok since => r.AtLeast since
  | .error _ => false

/-- The era that `r` belongs to. -/
def ofRelease? (r : Release) : Option Era := all.reverse.find? (hasBegun r)

/-- The list that the release named `version` is known to speak.  It is empty for a
release of no era, for one that advertises for itself, and for what is no release. -/
def listingOf (version : String) : String :=
  match Release.parse version with
  | .error _ => ""
  | .ok r =>
    match ofRelease? r with
    | some era => era.listing
    | none => ""

end Era

end Subprotocol

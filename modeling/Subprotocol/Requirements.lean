/-
What the network asks of its participants.

The lists are canonical, and every one of them is spoken natively.  So are the two
versions that brought the third generation of onion services.
-/
import Subprotocol.Compatibility

namespace Subprotocol.Requirements

/-- What clients are advised to speak. -/
def recommendedClient : String :=
  "Cons=1-2 Desc=1-2 DirCache=1 HSDir=1 HSIntro=3 HSRend=1 Link=4 LinkAuth=1 Microdesc=1-2 Relay=2"

/-- What a client has to speak to stay on the network. -/
def requiredClient : String :=
  "Cons=1-2 Desc=1-2 DirCache=1 HSDir=1 HSIntro=3 HSRend=1 Link=4 LinkAuth=1 Microdesc=1-2 Relay=2"

/-- What a relay has to speak to stay on the network. -/
def requiredRelay : String :=
  "Cons=1 Desc=1 DirCache=1 HSDir=1 HSIntro=3 HSRend=1 Link=3-4 LinkAuth=1 Microdesc=1 Relay=1-2"

/-- All the lists. -/
def all : List String := [recommendedClient, requiredClient, requiredRelay]

/-- The version of `hsDir` that stores descriptors of the third generation. -/
def hsDirV3 : Nat := 2

/-- The version of `hsIntro` that introduces to services of the third generation. -/
def hsIntroV3 : Nat := 4

end Subprotocol.Requirements

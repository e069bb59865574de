/-
Polls: a participant and the ballots it hears.

The participant may cast ballots itself, each of which is what it advertises at the
time.  It can then ask whether it speaks everything that the others agree on.
-/
import Subprotocol.Profile.Config
import Subprotocol.Session

namespace Subprotocol

/-- A participant, and the ballots cast so far in their order. -/
structure Poll where
  participant : Participant
  ballots : List String

namespace Poll

def ofProfile (p : Profile) : Poll := ⟨.ofProfile p, []⟩

/-- The poll of a participant with the configured profile. -/
def configured (supported : String) : Except Config.Fault Poll :=
  (Config.mk supported).profile.map ofProfile

/-! ### Casting -/

def cast (poll : Poll) (ballot : String) : Poll := { poll with ballots := poll.ballots ++ [ballot] }

/-- The poll after each of `ballots` was cast. -/
def castAll (poll : Poll) (ballots : List String) : Poll := ballots.foldl cast poll

/-- The poll after the participant cast its own advertisement. -/
def castOwn (poll : Poll) : Poll :=
  let (ballot, participant) := poll.participant.advertise
  cast { poll with participant } ballot

/-! ### Counting -/

def outcome (poll : Poll) (threshold : Int) : Consensus.Outcome :=
  Consensus.outcome poll.ballots threshold

def agreed (poll : Poll) (threshold : Int) : String := Consensus.agreedText poll.ballots threshold

/-- The participant speaks everything that is agreed on. -/
def keepsUp (poll : Poll) (threshold : Int) : Bool :=
  (poll.participant.profile.review (poll.agreed threshold)).supported

/-! ### Staggered ballots -/

/-- The ballot of a voter that speaks the links up to version `newest`. -/
def ballotUpTo (newest : Nat) : String := "Link=1-" ++ newest.repr ++ " Relay=1-2"

/-- The ballots of `count` voters, each of which speaks one link version more than the
one before. -/
def staggered (count : Nat) : List String := (List.range count).map fun i => ballotUpTo (i + 1)

end Poll

end Subprotocol

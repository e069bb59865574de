/-
Sessions: questions to participants that remember what they advertise.

A participant answers from its profile.  It computes its advertisement once, at the
first question for it, and keeps the text.  The process as a whole answers for the native
profile in the same manner; it also builds that profile at the first need, and can be told
to release the text, after which the next question computes it anew.  A list that is
looked at or a vote that is taken asks nothing of a profile, and does not build one.

None of this can be seen from outside.  A slot is empty or holds what would be computed
in its place, so an answer never depends on what was asked before, or of whom.
-/
import Subprotocol.Compatibility
import Subprotocol.Consensus

namespace Subprotocol

/-- A question to a participant. -/
inductive Query
  | supports (k : Known) (v : Nat)
  | advertisement
  | listSupports (s : String) (k : Known) (v : Nat)
  | review (s : String)
  | lacking (wanted : Capabilities)
  | profile
  | agreed (ballots : List String) (threshold : Int)
  | outcome (ballots : List String) (threshold : Int)

inductive Answer
  | flag (b : Bool)
  | text (s : String)
  | verdict (v : Verdict)
  | capabilities (c : Capabilities)
  | profile (p : Profile)
  | outcome (o : Consensus.Outcome)

/-! ### Participants -/

/-- A profile, and its advertisement once that was asked for. -/
structure Participant where
  profile : Profile
  advertised : Option String

namespace Participant

/-- A participant that was asked nothing yet. -/
def ofProfile (p : Profile) : Participant := ⟨p, none⟩

/-- The advertisement, and the participant that remembers it. -/
def advertise (p : Participant) : String × Participant :=
  match p.advertised with
  | some s => (s, p)
  | none =>
    let s := p.profile.advertisement
    (s, { p with advertised := some s })

/-- The answer to a question, and the participant that was asked. -/
def ask (p : Participant) : Query → Answer × Participant
  | .advertisement =>
    let (s, p) := p.advertise
    (.text s, p)
  | .supports k v => (.flag (p.profile.supports k v), p)
  | .review s => (.verdict (p.profile.review s), p)
  | .lacking wanted => (.capabilities (p.profile.lacking wanted), p)
  | .profile => (.profile p.profile, p)
  | .listSupports s k v => (.flag (Listing.supports s k v), p)
  | .agreed ballots threshold => (.text (Consensus.agreedText ballots threshold), p)
  | .outcome ballots threshold => (.outcome (Consensus.outcome ballots threshold), p)

end Participant

/-! ### The process -/

/-- The process and the participants in it. -/
structure Session where
  native : Option Profile
  advertised : Option String
  participants : List Participant

namespace Session

/-- A session in which nothing was asked yet. -/
def fresh : Session := ⟨none, none, []⟩

/-- The native profile, built at the first need. -/
def nativeProfile (s : Session) : Profile × Session :=
  match s.native with
  | some p => (p, s)
  | none => (Profile.native, { s with native := some Profile.native })

/-- The native advertisement, computed when the session does not hold it. -/
def advertise (s : Session) : String × Session :=
  match s.advertised with
  | some text => (text, s)
  | none =>
    let (p, s) := s.nativeProfile
    (p.advertisement, { s with advertised := some p.advertisement })

/-- A question to the process. -/
def ask (s : Session) : Query → Answer × Session
  | .advertisement =>
    let (text, s) := s.advertise
    (.text text, s)
  | .supports k v =>
    let (p, s) := s.nativeProfile
    (.flag (p.supports k v), s)
  | .review list =>
    let (p, s) := s.nativeProfile
    (.verdict (p.review list), s)
  | .lacking wanted =>
    let (p, s) := s.nativeProfile
    (.capabilities (p.lacking wanted), s)
  | .profile =>
    let (p, s) := s.nativeProfile
    (.profile p, s)
  | .listSupports list k v => (.flag (Listing.supports list k v), s)
  | .agreed ballots threshold => (.text (Consensus.agreedText ballots threshold), s)
  | .outcome ballots threshold => (.outcome (Consensus.outcome ballots threshold), s)

/-- A question to the participant with number `i`. -/
def askOf (s : Session) (i : Nat) (query : Query) : Option Answer × Session :=
  match s.participants[i]? with
  | none => (none, s)
  | some p =>
    let (answer, p) := p.ask query
    (some answer, { s with participants := s.participants.set i p })

/-- One step of a session. -/
inductive Request
  | ask (query : Query)
  | release
  | join (p : Profile)
  | askOf (i : Nat) (query : Query)

def step (s : Session) : Request → Option Answer × Session
  | .ask query =>
    let (answer, s) := s.ask query
    (some answer, s)
  | .release => (none, { s with advertised := none })
  | .join p => (none, { s with participants := s.participants ++ [.ofProfile p] })
  | .askOf i query => s.askOf i query

/-- The answers of a session to the requests, in order. -/
def run (s : Session) : List Request → List (Option Answer)
  | [] => []
  | request :: rest =>
    let (answer, s) := s.step request
    answer :: s.run rest

end Session

end Subprotocol

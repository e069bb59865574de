/-
Consensus: what enough participants speak.

Each ballot is a protocol list.  A pair of name and version is agreed on when the
ballots that list it reach a threshold.  Names need no meaning here, so that the
network can agree on a subprotocol before everyone knows it, and a ballot that cannot
be read counts as one that lists nothing.

Ballots may cover four thousand million versions with one span, so versions are not
counted one by one.  For each name the spans of all ballots are turned into shifts:
the running count rises by one where a span starts and falls by one behind its end.
`stretches` walks the shifts in ascending order and notes where the running count
reaches the threshold and where it drops below it again.  One ballot's spans of a
name never overlap, so the running count at a version is the number of ballots that
list it.

Positions reach one past the last version, where spans that include it end; no span
starts there.
-/
import Subprotocol.Listing.Canonical

namespace Subprotocol.Consensus

/-! ### Shifts of the running count -/

/-- The net change of the running count at one position. -/
structure Shift where
  position : Nat
  change : Int
deriving DecidableEq

/-- The ascending shifts `l` with one more change.  Changes at one position add up. -/
def record (position : Nat) (change : Int) : List Shift → List Shift
  | [] => [⟨position, change⟩]
  | s :: rest =>
    if position < s.position then ⟨position, change⟩ :: s :: rest
    else if position = s.position then ⟨position, s.change + change⟩ :: rest
    else s :: record position change rest

/-- The shifts that the spans cause together. -/
def shifts (spans : Spans) : List Shift :=
  spans.foldr (fun s acc => record s.low 1 (record (s.high + 1) (-1) acc)) []

/-- The running count at `v`, behind all shifts up to there. -/
def level (l : List Shift) (v : Nat) : Int :=
  l.foldr (fun s n => if s.position ≤ v then s.change + n else n) 0

/-! ### The walk -/

/-- Where the running count is at least `needed`, as pairs of a first position and the
position behind the last.  `count` is the count so far, and `opened` the start of the
stretch that it is in. -/
def stretches (needed : Int) : (count : Int) → (opened : Option Nat) → List Shift → List (Nat × Nat)
  | _, _, [] => []
  | count, none, s :: rest =>
    if needed ≤ count + s.change then stretches needed (count + s.change) (some s.position) rest
    else stretches needed (count + s.change) none rest
  | count, some start, s :: rest =>
    if needed ≤ count + s.change then stretches needed (count + s.change) (some start) rest
    else (start, s.position) :: stretches needed (count + s.change) none rest

/-- The versions that at least `needed` of the given spans hold. -/
def heldByEnough (needed : Int) (spans : Spans) : Spans :=
  let found := (stretches needed 0 none (shifts spans)).map fun b => (b.1, b.2 - 1)
  Spans.ofList (Spans.ofGaps found)

/-! ### The outcome -/

/-- The result of a vote, with the ballots accounted for. -/
structure Outcome where
  agreed : Capabilities
  ballots : Nat
  rejected : Nat

/-- The ballots that can be read. -/
def accepted (ballots : List String) : List Capabilities :=
  ballots.filterMap fun b => (Capabilities.parse b).toOption

/-- How many ballots a pair needs.  A threshold of zero or less asks for one. -/
def quorum (threshold : Int) : Int := max threshold 1

/-- What the given capabilities agree on under `name`. -/
def agreement (needed : Int) (votes : List Capabilities) (name : String) : Entry :=
  ⟨name, heldByEnough needed (votes.flatMap (·.spansOf name))⟩

/-- The vote over `ballots`. -/
def outcome (ballots : List String) (threshold : Int) : Outcome :=
  let votes := accepted ballots
  let names := (Capabilities.union votes).names
  { agreed := .ofEntries (names.map (agreement (quorum threshold) votes))
    ballots := ballots.length
    rejected := ballots.length - votes.length }

/-- The canonical text of what is agreed on. -/
def agreedText (ballots : List String) (threshold : Int) : String :=
  (outcome ballots threshold).agreed.encode

end Subprotocol.Consensus

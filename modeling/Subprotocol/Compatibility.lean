/-
Compatibility: whether a participant speaks what a list asks for.

Lists come from the network, and one that cannot be read asks for nothing that could
be recognised: it supports no version, and it is missing as a whole, word for word.
For any other list the answer names exactly the versions that are asked for and not
spoken, as a canonical list of its own.  Names without a meaning are missing in full.
-/
import Subprotocol.Profile

namespace Subprotocol

/-- The list `s` offers version `v` of `k`. -/
def Listing.supports (s : String) (k : Known) (v : Nat) : Bool :=
  match Capabilities.parse s with
  | .ok c => c.supports k.name v
  | .error _ => false

/-- Whether everything asked for is spoken, and what is not. -/
structure Verdict where
  supported : Bool
  missing : String
deriving DecidableEq

namespace Profile

/-- The versions in `e` that are not spoken.  They may be none. -/
def lackingOf (p : Profile) (e : Entry) : Entry :=
  match p.entryNamed? e.name with
  | some own => e.remove own.spans
  | none => e

/-- The part of `wanted` that is not spoken. -/
def lacking (p : Profile) (wanted : Capabilities) : Capabilities :=
  .ofEntries (wanted.entries.map p.lackingOf)

/-- The verdict on the list `s`. -/
def review (p : Profile) (s : String) : Verdict :=
  match Capabilities.parse s with
  | .error _ => ⟨false, s⟩
  | .ok wanted =>
    let missing := p.lacking wanted
    if missing.IsEmpty then ⟨true, ""⟩ else ⟨false, missing.encode⟩

end Profile

end Subprotocol

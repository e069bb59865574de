/-
Profiles: what a participant speaks of the known subprotocols.

A profile assigns a set of versions to each of the ten known subprotocols, the empty
set to one that is not spoken.  It is fixed once built.  What it advertises is the
canonical text of its entries; `ofCapabilities` goes the other way, and refuses
capabilities that mention a name with no meaning here.

`native` is the profile of this implementation.
-/
import Subprotocol.Known
import Subprotocol.Listing.Canonical

namespace Subprotocol

/-- The versions spoken of each known subprotocol. -/
structure Profile where
  spans : Known → Spans

namespace Profile

/-- The versions of each subprotocol are written in separate spans. -/
structure WellFormed (p : Profile) : Prop where
  separated : ∀ k, (p.spans k).Separated

/-! ### Asking -/

def supports (p : Profile) (k : Known) (v : Nat) : Bool := (p.spans k).supports v

/-- The entry of `k`, if any version of it is spoken. -/
def entry? (p : Profile) (k : Known) : Option Entry :=
  if p.spans k = [] then none else some ⟨k.name, p.spans k⟩

/-- The entry of that name, if the name is known and any version is spoken. -/
def entryNamed? (p : Profile) (name : String) : Option Entry := (Known.ofName? name).bind p.entry?

/-- What is spoken, in the order of ordinals. -/
def rows (p : Profile) : List (Known × Entry) :=
  Known.all.filterMap fun k => (p.entry? k).map fun e => (k, e)

/-! ### To and from capabilities -/

def capabilities (p : Profile) : Capabilities := .ofEntries (p.rows.map Prod.snd)

/-- The canonical text of everything that is spoken. -/
def advertisement (p : Profile) : String := p.capabilities.encode

/-- The profile that speaks exactly `c`.  The first name that is not known is at fault. -/
def ofCapabilities (c : Capabilities) : Except Known.Fault Profile :=
  match c.names.find? fun name => (Known.ofName? name).isNone with
  | some name => .error (.noSuchName name)
  | none => .ok ⟨fun k => c.spansOf k.name⟩

/-! ### The native profile -/

/-- What this implementation speaks. -/
def native : Profile where
  spans
    | .link => [⟨1, 4, by decide, by decide⟩]
    | .linkAuth => [⟨1, 1, by decide, by decide⟩, ⟨3, 3, by decide, by decide⟩]
    | .hsIntro => [⟨3, 4, by decide, by decide⟩]
    | .relay | .dirCache | .hsDir | .hsRend | .desc | .microdesc | .cons =>
      [⟨1, 2, by decide, by decide⟩]

end Profile

end Subprotocol

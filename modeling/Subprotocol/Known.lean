/-
The subprotocols that have a meaning here.

Names in lists are opaque, and most of the library treats them so.  Ten names are
known, and what is spoken locally is a matter of these ten only.  Each of them has an
ordinal, by which other implementations refer to it; the ordinals follow the order of
declaration and do not change.
-/

namespace Subprotocol

/-- A subprotocol with a meaning. -/
inductive Known
  | link
  | linkAuth
  | relay
  | dirCache
  | hsDir
  | hsIntro
  | hsRend
  | desc
  | microdesc
  | cons
deriving DecidableEq

namespace Known

/-- The known subprotocols, in the order of their ordinals. -/
def all : List Known :=
  [.link, .linkAuth, .relay, .dirCache, .hsDir, .hsIntro, .hsRend, .desc, .microdesc, .cons]

theorem mem_all (k : Known) : k ∈ all := by cases k <;> decide

/-- The name in lists. -/
def name : Known → String
  | .link => "Link"
  | .linkAuth => "LinkAuth"
  | .relay => "Relay"
  | .dirCache => "DirCache"
  | .hsDir => "HSDir"
  | .hsIntro => "HSIntro"
  | .hsRend => "HSRend"
  | .desc => "Desc"
  | .microdesc => "Microdesc"
  | .cons => "Cons"

def ordinal : Known → Nat
  | .link => 0
  | .linkAuth => 1
  | .relay => 2
  | .dirCache => 3
  | .hsDir => 4
  | .hsIntro => 5
  | .hsRend => 6
  | .desc => 7
  | .microdesc => 8
  | .cons => 9

instance : Ord Known := ⟨fun a b => compare a.ordinal b.ordinal⟩

/-! ### Looking one up -/

/-- Why a reference leads to no known subprotocol. -/
inductive Fault
  | noSuchOrdinal (n : Nat)
  | noSuchName (name : String)
deriving DecidableEq

def Fault.message : Fault → String
  | .noSuchOrdinal n => "unknown protocol ordinal: " ++ n.repr
  | .noSuchName name => "unrecognized protocol name: " ++ name

/-- The known subprotocol of that name.  Upper and lower case differ. -/
def ofName? (name : String) : Option Known := all.find? (·.name = name)

def ofName (name : String) : Except Fault Known :=
  match ofName? name with
  | some k => .ok k
  | none => .error (.noSuchName name)

def ofOrdinal (n : Nat) : Except Fault Known :=
  match all[n]? with
  | some k => .ok k
  | none => .error (.noSuchOrdinal n)

theorem ofName?_name (k : Known) : ofName? k.name = some k := by cases k <;> decide

theorem ofOrdinal_ordinal (k : Known) : ofOrdinal k.ordinal = .ok k := by cases k <;> rfl

theorem name_of_ofName? {name : String} {k : Known} (h : ofName? name = some k) :
    k.name = name := by
  simpa using List.find?_some h

end Known

end Subprotocol

/-
Releases: four numbers and a status, and the order of age.

A tag such as `alpha` or `rc-dev` puts a release before the one that carries the
same numbers and no tag.  Which of the tagged releases comes first is decided by
the maturity that the tag announces, and by the tag's text where that agrees.  The
numbers weigh more than any of this, the earlier ones more than the later.

The order is a chain of comparisons, each of which is asked only if all before it
came out equal.  It says equal of equal releases only.
-/
import Subprotocol.Text.Decimal

namespace Subprotocol

namespace Release

/-- How mature a release is.  A tag keeps its whole text. -/
inductive Status
  | alpha (tag : String)
  | beta (tag : String)
  | candidate (tag : String)
  | other (tag : String)
  | final
deriving DecidableEq

namespace Status

/-- The status that a tag announces by its first letters. -/
def ofTag (tag : List Char) : Status :=
  let text := String.ofList tag
  if "alpha".toList.isPrefixOf tag then .alpha text
  else if "beta".toList.isPrefixOf tag then .beta text
  else if "rc".toList.isPrefixOf tag then .candidate text
  else .other text

def tag? : Status → Option String
  | .alpha tag | .beta tag | .candidate tag | .other tag => some tag
  | .final => none

/-- The place of the status class, from the least mature to the most. -/
def rank : Status → Nat
  | .alpha _ => 0
  | .beta _ => 1
  | .candidate _ => 2
  | .other _ => 3
  | .final => 4

instance : Ord Status :=
  ⟨fun a b => (compare a.rank b.rank).then (compare (a.tag?.getD "") (b.tag?.getD ""))⟩

end Status

end Release

/-- A release.  One that is named with three numbers has patch level 0. -/
structure Release where
  major : Nat
  minor : Nat
  micro : Nat
  patch : Nat
  status : Release.Status
deriving DecidableEq

namespace Release

/-- The four numbers, the weightiest first. -/
def numbers (r : Release) : List Nat := [r.major, r.minor, r.micro, r.patch]

/-- The older release is the smaller one. -/
instance : Ord Release :=
  ⟨fun a b =>
    (compare a.major b.major).then <|
    (compare a.minor b.minor).then <|
    (compare a.micro b.micro).then <|
    (compare a.patch b.patch).then <|
    compare a.status b.status⟩

/-- `a` is the same release as `b` or a newer one. -/
def AtLeast (a b : Release) : Prop := (compare a b).isGE

instance (a b : Release) : Decidable (a.AtLeast b) := inferInstanceAs (Decidable (_ = true))

/-! ### Written form -/

/-- All four numbers between dots, and the tag behind a hyphen. -/
def chars (r : Release) : List Char :=
  ['.'].intercalate ([r.major, r.minor, r.micro, r.patch].map Decimal.digits) ++
    match r.status.tag? with
    | none => []
    | some tag => '-' :: tag.toList

def text (r : Release) : String := String.ofList r.chars

end Release

end Subprotocol

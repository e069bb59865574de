/-
Conformance cases.

A case states a list and its canonical text, and may pin the digest of that text.
Every implementation has to agree with all of them, since participants that disagree
on a canonical text cannot verify each other's signatures.

A case is judged step by step: the input has to be readable, its canonical text has to
be the stated one, and that text has to have the pinned digest.  The digest is taken
from the text itself, read again, so that a pinned digest speaks about the text and
not about the input.
-/
import Subprotocol.Listing.Canonical

namespace Subprotocol.Conformance

/-- A list and what has to be made of it. -/
structure Case where
  name : String
  description : String
  input : String
  canonical : String
  /-- The digest of `canonical` in hexadecimal, empty when it is not pinned. -/
  digest : String
deriving DecidableEq

namespace Case

/-! ### Judging a case -/

/-- What went wrong with a case. -/
inductive Fault
  | unreadable (cause : Listing.Fault)
  | unexpected (expected got : String)
  | unreadableCanonical (cause : Listing.Fault)
  | digestMismatch
deriving DecidableEq

def Fault.message : Fault → String
  | .unreadable cause => "input does not parse: " ++ cause.message
  | .unexpected expected got =>
    "expected " ++ Text.quoted expected ++ ", got " ++ Text.quoted got
  | .unreadableCanonical cause => "canonical form does not parse: " ++ cause.message
  | .digestMismatch => "digest mismatch"

/-- A case that failed, by its name. -/
structure Failure where
  name : String
  cause : Fault
deriving DecidableEq

def Failure.message (f : Failure) : String := "vector " ++ f.name ++ ": " ++ f.cause.message

/-- The digest of the case by the function `hash`, or what is wrong with the case. -/
def verifyBy (hash : List UInt8 → List UInt8) (case : Case) : Except Failure String :=
  match Listing.canonical case.input with
  | .error cause => .error ⟨case.name, .unreadable cause⟩
  | .ok canonical =>
    if canonical ≠ case.canonical then
      .error ⟨case.name, .unexpected case.canonical canonical⟩
    else
      match Capabilities.parse canonical with
      | .error cause => .error ⟨case.name, .unreadableCanonical cause⟩
      | .ok c =>
        if case.digest ≠ "" ∧ c.fingerprintBy hash ≠ case.digest then
          .error ⟨case.name, .digestMismatch⟩
        else .ok (c.fingerprintBy hash)

/-- The digest of the case, or what is wrong with it. -/
def verify (case : Case) : Except Failure String := case.verifyBy Blake3.hash

/-- The case with its digest pinned. -/
def pinned (case : Case) : Except Failure Case :=
  case.verify.map fun digest => { case with digest }

/-! ### The cases -/

/-- A case whose digest is not pinned. -/
def unpinned (name description input canonical : String) : Case :=
  ⟨name, description, input, canonical, ""⟩

/-- The cases that every implementation has to pass. -/
def all : List Case :=
  [unpinned "empty" "Empty list" "" "",
    unpinned "whitespace_only" "Whitespace is an empty list" "  \t " "",
    unpinned "single" "One version" "Link=1" "Link=1",
    unpinned "singleton_range" "v-v collapses to v" "Link=3-3" "Link=3",
    unpinned "leading_zeros" "Leading zeros are dropped" "Link=01-004" "Link=1-4",
    unpinned "sorted_names" "Entries sort by name bytes"
      "Relay=2 LinkAuth=1 Link=1 HSDir=2 Cons=1" "Cons=1 HSDir=2 Link=1 LinkAuth=1 Relay=2",
    unpinned "merge_adjacent" "Adjacent tokens merge" "Link=1,2,3" "Link=1-3",
    unpinned "keep_gaps" "Gaps are preserved" "LinkAuth=3,1" "LinkAuth=1,3",
    unpinned "repeated_names" "Repeated names merge"
      "Link=1-2 Cons=1 Link=4 Link=3" "Cons=1 Link=1-4",
    unpinned "multiple_spaces" "Runs of whitespace separate entries"
      "Link=1   Relay=2\tCons=1" "Cons=1 Link=1 Relay=2",
    unpinned "unknown_name" "Unknown names survive" "Zzz=7 Link=1" "Link=1 Zzz=7",
    unpinned "version_space_top" "The largest version is representable"
      "Link=4294967295,4294967294" "Link=4294967294-4294967295"]

end Case

end Subprotocol.Conformance

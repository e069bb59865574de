/-
Files of conformance cases.

A file is a JSON document with the version of its format and the cases.  Its form is
checked as a whole before any case is judged: all fields but the digest are required,
fields with other names are passed over, and a field that occurs twice is a mistake.
-/
import Subprotocol.Conformance.Case
import Subprotocol.Json.Reader
import Subprotocol.Json.Writer

namespace Subprotocol.Conformance

/-! ### The JSON form of a case -/

namespace Case

def toJson (case : Case) : Json :=
  .record
    [("name", .ofText case.name), ("description", .ofText case.description),
      ("input", .ofText case.input), ("canonical", .ofText case.canonical),
      ("digest", .ofText case.digest)]

def ofJson? (j : Json) : Option Case :=
  match j.fields? ["name", "description", "input", "canonical", "digest"] with
  | some [some name, some description, some input, some canonical, digest] => do
    let name ← name.text?
    let description ← description.text?
    let input ← input.text?
    let canonical ← canonical.text?
    let digest ← (digest.getD (.ofText "")).text?
    some { name, description, input, canonical, digest }
  | _ => none

end Case

/-! ### Files -/

structure CaseFile where
  version : String
  cases : List Case

namespace CaseFile

/-- The version of the format written here. -/
def currentVersion : String := "0.1.0"

def toJson (file : CaseFile) : Json :=
  .record
    [("version", .ofText file.version), ("vectors", .array (file.cases.map Case.toJson))]

def ofJson? (j : Json) : Option CaseFile :=
  match j.fields? ["version", "vectors"] with
  | some [some version, some cases] => do
    let version ← version.text?
    let cases ← (← cases.items?).mapM Case.ofJson?
    some { version, cases }
  | _ => none

/-- The file with the content `s`. -/
def read (s : String) : Option CaseFile := (Json.read s).bind ofJson?

/-- The content of the file, for people to read. -/
def text (file : CaseFile) : String := file.toJson.pretty

/-- How many cases the file has, if none of them fails.  The first failure counts. -/
def verify (file : CaseFile) : Except Case.Failure Nat := do
  let digests ← file.cases.mapM Case.verify
  pure digests.length

/-- The file of all cases, with their digests pinned. -/
def published : Except Case.Failure CaseFile := do
  let cases ← Case.all.mapM Case.pinned
  pure { version := currentVersion, cases }

/-! ### Judging a text -/

/-- Why the content of a file does not pass. -/
inductive Fault
  | invalid
  | failed (failure : Case.Failure)

def Fault.message : Fault → String
  | .invalid => "invalid vector file"
  | .failed failure => failure.message

/-- How many cases the file with the content `s` has, if none of them fails. -/
def verifyText (s : String) : Except Fault Nat :=
  match read s with
  | none => .error .invalid
  | some file => file.verify.mapError .failed

end CaseFile

end Subprotocol.Conformance

/-
The verdict on a conformance case is exact.

A case passes when the canonical text of its input is the stated one and the digest of that text
is the pinned one, if any is pinned.  It can fail in three ways, and never in the fourth that a
`Fault` has room for: the text that is read again is a canonical text, and canonical texts are
read back.  For the same reason the digest that is handed out, taken from what was read again, is
that of the stated text and of what the input lists.

Nothing in this depends on the function that digests are taken by, and all of it is stated for any.
Pinning the digest settles the case for good.  With the function in use it has 64 digits, so that
once pinned it is never taken for one that was left out.

The cases of a file are judged in their order, and the file fails as the first case that does.
-/
import Subprotocol.Conformance.CaseFile
import Subprotocol.Proofs.Capabilities.Canonical

namespace Subprotocol

/-! ### The length of a digest -/

namespace Blake3

theorem pairUp_ne_nil {nodes : List Node} (h : nodes ≠ []) : pairUp nodes ≠ [] := by
  match nodes with
  | [] => exact absurd rfl h
  | [_] => simp [pairUp]
  | _ :: _ :: _ => simp [pairUp]

/-- The tree has a top, since no level of it is empty. -/
theorem exists_top {leaves : List Node} (h : leaves ≠ []) : ∃ node, top leaves = some node := by
  have hlevels : ∀ n, Nat.repeat pairUp n leaves ≠ [] := by
    intro n
    induction n with
    | zero => exact h
    | succ n ih => exact pairUp_ne_nil ih
  exact Option.isSome_iff_exists.mp (List.isSome_head?.mpr (hlevels leaves.length))

theorem length_hash (input : List UInt8) : (hash input).length = 32 := by
  have hleaves : (pieces 1024 input).zipIdx.map (fun c => leaf c.1 c.2) ≠ [] := by
    rw [← List.length_pos_iff_ne_nil, List.length_map, List.length_zipIdx, pieces, List.length_map,
      List.length_range]
    omega
  obtain ⟨node, hnode⟩ := exists_top hleaves
  rw [hash, hnode]
  rfl

theorem length_hex (digest : List UInt8) : (hex digest).length = 2 * digest.length := by
  rw [hex, String.length_ofList]
  induction digest with
  | nil => rfl
  | cons b rest ih =>
      rw [List.flatMap_cons, List.length_append, ih, List.length_cons]
      show 2 + 2 * rest.length = 2 * (rest.length + 1)
      omega

end Blake3

namespace Conformance

/-- The digest of a text by the function `hash`, in lower-case hexadecimal. -/
def digestBy (hash : List UInt8 → List UInt8) (s : String) : String :=
  Blake3.hex (hash s.toUTF8.data.toList)

/-- The digest of a text, in lower-case hexadecimal. -/
def digestOf (s : String) : String := digestBy Blake3.hash s

variable {hash : List UInt8 → List UInt8}

theorem length_digestBy {n : Nat} (h : ∀ input, (hash input).length = n) (s : String) :
    (digestBy hash s).length = 2 * n := by
  rw [digestBy, Blake3.length_hex, h]

theorem length_digestOf (s : String) : (digestOf s).length = 64 :=
  length_digestBy Blake3.length_hash s

theorem fingerprintBy_eq (c : Capabilities) : c.fingerprintBy hash = digestBy hash c.encode := rfl

/-- What a text lists is what its canonical text lists. -/
theorem exists_parse_of_canonical {s t : String} (h : Listing.canonical s = .ok t) :
    ∃ c, Capabilities.parse s = .ok c ∧ Capabilities.parse t = .ok c ∧ c.encode = t := by
  obtain ⟨c, hc, rfl⟩ := Reading.map_eq_ok_iff.mp h
  exact ⟨c, hc, (Capabilities.wellFormed_of_parse hc).parse_encode, rfl⟩

/-! ### One case -/

namespace Case

/-- What a case has to be to pass, with digests by the function `hash`. -/
structure Passes (hash : List UInt8 → List UInt8) (case : Case) : Prop where
  expected : Listing.canonical case.input = .ok case.canonical
  digest : case.digest = "" ∨ case.digest = digestBy hash case.canonical

/-- How a case can fail. -/
inductive Fails (hash : List UInt8 → List UInt8) (case : Case) : Fault → Prop
  | unreadable {cause : Listing.Fault} (h : Listing.canonical case.input = .error cause) :
      Fails hash case (.unreadable cause)
  | unexpected {got : String} (h : Listing.canonical case.input = .ok got)
      (hne : got ≠ case.canonical) : Fails hash case (.unexpected case.canonical got)
  | digestMismatch (h : Listing.canonical case.input = .ok case.canonical)
      (hpinned : case.digest ≠ "") (hne : case.digest ≠ digestBy hash case.canonical) :
      Fails hash case .digestMismatch

variable {case : Case} {digest : String} {cause : Fault} {failure : Failure}

theorem passes_or_fails (hash : List UInt8 → List UInt8) (case : Case) :
    case.Passes hash ∨ ∃ cause, case.Fails hash cause := by
  cases hread : Listing.canonical case.input with
  | error cause => exact Or.inr ⟨_, .unreadable hread⟩
  | ok got =>
      by_cases hgot : got = case.canonical
      · rw [hgot] at hread
        by_cases hpinned : case.digest = ""
        · exact Or.inl ⟨hread, Or.inl hpinned⟩
        · by_cases hdigest : case.digest = digestBy hash case.canonical
          · exact Or.inl ⟨hread, Or.inr hdigest⟩
          · exact Or.inr ⟨_, .digestMismatch hread hpinned hdigest⟩
      · exact Or.inr ⟨_, .unexpected hread hgot⟩

/-- Only the digest is left to be judged where the canonical text is the stated one. -/
theorem verifyBy_of_expected (h : Listing.canonical case.input = .ok case.canonical) :
    case.verifyBy hash =
      if case.digest ≠ "" ∧ digestBy hash case.canonical ≠ case.digest then
        .error ⟨case.name, .digestMismatch⟩
      else .ok (digestBy hash case.canonical) := by
  obtain ⟨c, -, hparse, hencode⟩ := exists_parse_of_canonical h
  rw [verifyBy, h]
  simp only [ne_eq, not_true_eq_false, if_false, hparse, fingerprintBy_eq, hencode]

theorem Passes.verifyBy (h : case.Passes hash) :
    case.verifyBy hash = .ok (digestBy hash case.canonical) := by
  rw [verifyBy_of_expected h.expected]
  refine if_neg fun hfails => ?_
  rcases h.digest with hempty | hsame
  · exact hfails.1 hempty
  · exact hfails.2 hsame.symm

theorem Fails.verifyBy (h : case.Fails hash cause) :
    case.verifyBy hash = .error ⟨case.name, cause⟩ := by
  cases h with
  | unreadable h => rw [Case.verifyBy, h]
  | unexpected h hne =>
      rw [Case.verifyBy, h]
      exact if_pos hne
  | digestMismatch h hpinned hne =>
      rw [verifyBy_of_expected h]
      exact if_pos ⟨hpinned, Ne.symm hne⟩

theorem verifyBy_eq_ok_iff :
    case.verifyBy hash = .ok digest ↔ case.Passes hash ∧ digest = digestBy hash case.canonical := by
  constructor
  · intro h
    rcases case.passes_or_fails hash with hpasses | ⟨cause, hfails⟩
    · rw [hpasses.verifyBy] at h
      exact ⟨hpasses, (Except.ok.inj h).symm⟩
    · rw [hfails.verifyBy] at h
      simp at h
  · intro h
    obtain ⟨hpasses, rfl⟩ := h
    exact hpasses.verifyBy

theorem verifyBy_eq_error_iff :
    case.verifyBy hash = .error failure ↔
      failure.name = case.name ∧ case.Fails hash failure.cause := by
  constructor
  · intro h
    rcases case.passes_or_fails hash with hpasses | ⟨cause, hfails⟩
    · rw [hpasses.verifyBy] at h
      simp at h
    · rw [hfails.verifyBy] at h
      obtain rfl := Except.error.inj h
      exact ⟨rfl, hfails⟩
  · intro h
    obtain ⟨hname, hfails⟩ := h
    rw [hfails.verifyBy, ← hname]

theorem exists_verifyBy_iff : (∃ digest, case.verifyBy hash = .ok digest) ↔ case.Passes hash := by
  simp only [verifyBy_eq_ok_iff, exists_and_left, exists_eq, and_true]

/-- The digest that is handed out is that of what the input lists. -/
theorem Passes.exists_fingerprintBy (h : case.Passes hash) :
    ∃ c, Capabilities.parse case.input = .ok c ∧
      c.fingerprintBy hash = digestBy hash case.canonical := by
  obtain ⟨c, hparse, -, hencode⟩ := exists_parse_of_canonical h.expected
  refine ⟨c, hparse, ?_⟩
  rw [fingerprintBy_eq, hencode]

/-- A case that passes still does when its digest is pinned. -/
theorem Passes.pin (h : case.Passes hash) :
    Passes hash { case with digest := digestBy hash case.canonical } :=
  ⟨h.expected, Or.inr rfl⟩

/-- The text that is read again is a canonical one, and those are read. -/
theorem verifyBy_ne_unreadableCanonical {fault : Listing.Fault}
    (h : case.verifyBy hash = .error failure) : failure.cause ≠ .unreadableCanonical fault := by
  intro hcause
  have hfails := (verifyBy_eq_error_iff.mp h).2
  rw [hcause] at hfails
  cases hfails

end Case

/-! ### A file of cases -/

namespace CaseFile

variable {file : CaseFile} {failure : Case.Failure} {n : Nat}

theorem verify_eq_ok_iff :
    file.verify = .ok n ↔
      n = file.cases.length ∧ ∀ case ∈ file.cases, ∃ digest, case.verify = .ok digest := by
  rw [verify, Reading.bind_eq_ok_iff, ← Reading.exists_mapM_eq_ok_iff]
  constructor
  · intro h
    obtain ⟨digests, hdigests, hpure⟩ := h
    have hlength := (Reading.mapM_eq_ok_iff.mp hdigests).length_eq
    exact ⟨(Reading.pure_eq_ok_iff.mp hpure).trans hlength.symm, digests, hdigests⟩
  · intro h
    obtain ⟨hn, digests, hdigests⟩ := h
    have hlength := (Reading.mapM_eq_ok_iff.mp hdigests).length_eq
    exact ⟨digests, hdigests, Reading.pure_eq_ok_iff.mpr (hn.trans hlength)⟩

/-- A file fails as its first failing case. -/
theorem verify_eq_error_iff :
    file.verify = .error failure ↔ ∃ before case after, file.cases = before ++ case :: after ∧
      (∀ x ∈ before, ∃ digest, x.verify = .ok digest) ∧ case.verify = .error failure := by
  rw [verify, Reading.bind_eq_error_iff, Reading.mapM_eq_error_iff]
  refine or_iff_left fun h => ?_
  obtain ⟨digests, -, hpure⟩ := h
  exact absurd hpure (by simp [pure, Except.pure])

theorem verifyText_of_read {s : String} (h : read s = some file) :
    verifyText s = file.verify.mapError .failed := by
  rw [verifyText, h]

end CaseFile

namespace Case

/-- **The verdict on a case is exact**, and so is that on a file.  A case passes when its input has
the stated canonical text and that text the pinned digest, if there is one.  The digest handed out
is that of the text and of what the input lists, and can be pinned.  A case fails in three ways
only.  A file passes when all its cases do, and fails as the first case that does not. -/
theorem verify_exact (case : Case) :
    ((∃ digest, case.verify = .ok digest) ↔
      Listing.canonical case.input = .ok case.canonical ∧
        (case.digest = "" ∨ case.digest = digestOf case.canonical)) ∧
    (∀ digest, case.verify = .ok digest →
      digest = digestOf case.canonical ∧ digest.length = 64 ∧
      (∃ c, Capabilities.parse case.input = .ok c ∧ digest = c.fingerprint) ∧
      Case.verify { case with digest } = .ok digest) ∧
    (∀ failure, case.verify = .error failure ↔
      failure.name = case.name ∧ case.Fails Blake3.hash failure.cause) ∧
    (∀ failure cause, case.verify = .error failure →
      failure.cause ≠ .unreadableCanonical cause) ∧
    ∀ s file, CaseFile.read s = some file →
      (∀ n, CaseFile.verifyText s = .ok n ↔
        n = file.cases.length ∧ ∀ x ∈ file.cases, ∃ digest, x.verify = .ok digest) ∧
      ∀ fault, CaseFile.verifyText s = .error fault ↔
        ∃ before x after failure, file.cases = before ++ x :: after ∧
          (∀ y ∈ before, ∃ digest, y.verify = .ok digest) ∧
          x.verify = .error failure ∧ fault = .failed failure := by
  refine ⟨?_, ?_, fun failure => verifyBy_eq_error_iff,
    fun failure cause => verifyBy_ne_unreadableCanonical, fun s file hread => ⟨?_, ?_⟩⟩
  · exact exists_verifyBy_iff.trans ⟨fun h => ⟨h.expected, h.digest⟩, fun h => ⟨h.1, h.2⟩⟩
  · intro digest h
    obtain ⟨hpasses, rfl⟩ := verifyBy_eq_ok_iff.mp h
    obtain ⟨c, hparse, hfingerprint⟩ := hpasses.exists_fingerprintBy
    exact ⟨rfl, length_digestOf _, ⟨c, hparse, hfingerprint.symm⟩, hpasses.pin.verifyBy⟩
  · intro n
    rw [CaseFile.verifyText_of_read hread, Reading.mapError_eq_ok_iff, CaseFile.verify_eq_ok_iff]
  · intro fault
    rw [CaseFile.verifyText_of_read hread, Reading.mapError_eq_error_iff]
    simp only [CaseFile.verify_eq_error_iff]
    constructor
    · intro h
      obtain ⟨failure, ⟨before, x, after, hcases, hbefore, hx⟩, rfl⟩ := h
      exact ⟨before, x, after, failure, hcases, hbefore, hx, rfl⟩
    · intro h
      obtain ⟨before, x, after, failure, hcases, hbefore, hx, rfl⟩ := h
      exact ⟨failure, ⟨before, x, after, hcases, hbefore, hx⟩, rfl⟩

/-- A case that passes, and a file in which a wrong digest is pinned for the case behind it and the
last one cannot be read. -/
theorem verify_exact_of_three :
    ∃ case digest s file, case = unpinned "merge" "" "Link=2,1" "Link=1-2" ∧
      case.verify = .ok digest ∧ digest = digestOf "Link=1-2" ∧
      Case.verify { case with digest } = .ok digest ∧
      s = "[\"1\", [[\"merge\", \"\", \"Link=2,1\", \"Link=1-2\"], " ++
        "[\"pin\", \"\", \"Cons=1\", \"Cons=1\", \"00\"], [\"bad\", \"\", \"Link=\", \"\"]]]" ∧
      CaseFile.read s = some file ∧
      file.cases = [case, ⟨"pin", "", "Cons=1", "Cons=1", "00"⟩, unpinned "bad" "" "Link=" ""] ∧
      CaseFile.verifyText s = .error (.failed ⟨"pin", .digestMismatch⟩) := by
  let s := "[\"1\", [[\"merge\", \"\", \"Link=2,1\", \"Link=1-2\"], " ++
    "[\"pin\", \"\", \"Cons=1\", \"Cons=1\", \"00\"], [\"bad\", \"\", \"Link=\", \"\"]]]"
  have hread : (CaseFile.read s).map CaseFile.cases =
      some [unpinned "merge" "" "Link=2,1" "Link=1-2", ⟨"pin", "", "Cons=1", "Cons=1", "00"⟩,
        unpinned "bad" "" "Link=" ""] := by
    decide +kernel
  have hmerge : Listing.canonical "Link=2,1" = .ok "Link=1-2" := by decide +kernel
  have hpin : Listing.canonical "Cons=1" = .ok "Cons=1" := by decide +kernel
  obtain ⟨file, hfile, hcases⟩ := Option.map_eq_some_iff.mp hread
  obtain ⟨hok, hdigest, -, -, hjudged⟩ := verify_exact (unpinned "merge" "" "Link=2,1" "Link=1-2")
  obtain ⟨digest, hverify⟩ := hok.mpr ⟨hmerge, Or.inl rfl⟩
  obtain ⟨hsame, -, -, hagain⟩ := hdigest digest hverify
  refine ⟨_, digest, s, file, rfl, hverify, hsame, hagain, rfl, hfile, hcases, ?_⟩
  refine ((hjudged s file hfile).2 _).mpr ⟨[_], _, [_], _, hcases, ?_, ?_, rfl⟩
  · exact List.forall_mem_singleton.mpr ⟨digest, hverify⟩
  · exact Fails.verifyBy (.digestMismatch hpin (by decide) (by decide +kernel))

end Case

end Conformance

end Subprotocol

/-
A session answers as if nothing were remembered.

The process and each of its participants have a slot for a text.  A slot is empty or holds the
text that would be computed in its place, and this is all that the answers depend on: for a
session of which it is true, a request is answered as by someone who computes every answer
anew and knows nothing but the profiles that have joined.  A request keeps it true, since a
slot is only ever filled with what was just computed and only ever released as a whole, and a
question to one participant touches the slot of no other.

So the answers to a row of requests follow from the profiles that have joined before it.  A
release and a question bring no profile, and therefore change no answer behind them.
-/
import Subprotocol.Proofs.Session.Participant

namespace Subprotocol.Session

/-! ### Requests without a session -/

/-- The profile that joins with the request, if any. -/
def Request.joined : Request → List Profile
  | .join p => [p]
  | .ask _ | .release | .askOf _ _ => []

/-- The answers to the requests, in order, when every one is computed anew and `profiles`
are those of the participants that have joined. -/
def answersFrom (profiles : List Profile) : List Request → List (Option Answer)
  | [] => []
  | .ask query :: rest => some (query.answer .native) :: answersFrom profiles rest
  | .release :: rest => none :: answersFrom profiles rest
  | .join p :: rest => none :: answersFrom (profiles ++ [p]) rest
  | .askOf i query :: rest => profiles[i]?.map query.answer :: answersFrom profiles rest

/-- The answer to the request when `profiles` have joined, computed from nothing else. -/
def Request.answer (profiles : List Profile) : Request → Option Answer
  | .ask query => some (query.answer .native)
  | .askOf i query => profiles[i]?.map query.answer
  | .release | .join _ => none

/-- The profiles that join with the requests, in order. -/
def joined (requests : List Request) : List Profile := requests.flatMap Request.joined

/-- The session after the requests. -/
def after (s : Session) (requests : List Request) : Session :=
  requests.foldl (fun s request => (s.step request).2) s

variable {s : Session} {profiles : List Profile}

theorem answersFrom_cons (profiles : List Profile) (request : Request) (rest : List Request) :
    answersFrom profiles (request :: rest) =
      request.answer profiles :: answersFrom (profiles ++ request.joined) rest := by
  cases request with
  | join p => rfl
  | ask | release | askOf =>
      rw [Request.joined, List.append_nil]
      rfl

/-! ### What a session knows -/

/-- The profiles of the participants are `profiles`, and every slot is empty or holds what
would be computed in its place. -/
structure AnswersFrom (s : Session) (profiles : List Profile) : Prop where
  native : ∀ p ∈ s.native, p = Profile.native
  advertised : ∀ text ∈ s.advertised, text = Profile.native.advertisement
  profiles : s.participants.map Participant.profile = profiles
  participants : ∀ a ∈ s.participants, a.AnswersFrom a.profile

theorem answersFrom_fresh : fresh.AnswersFrom [] := by
  refine ⟨?_, ?_, rfl, ?_⟩ <;> simp [fresh]

theorem AnswersFrom.nativeProfile (h : s.AnswersFrom profiles) :
    s.nativeProfile.1 = Profile.native ∧ s.nativeProfile.2.AnswersFrom profiles := by
  unfold Session.nativeProfile
  cases hp : s.native with
  | none =>
      refine ⟨rfl, ?_, h.advertised, h.profiles, h.participants⟩
      intro p hp
      exact (Option.some.inj hp).symm
  | some p => exact ⟨h.native p hp, h⟩

theorem AnswersFrom.advertise (h : s.AnswersFrom profiles) :
    s.advertise.1 = Profile.native.advertisement ∧ s.advertise.2.AnswersFrom profiles := by
  unfold Session.advertise
  cases htext : s.advertised with
  | none =>
      obtain ⟨hnative, hlater⟩ := h.nativeProfile
      have hcomputed : s.nativeProfile.1.advertisement = Profile.native.advertisement := by
        rw [hnative]
      refine ⟨hcomputed, hlater.native, ?_, hlater.profiles, hlater.participants⟩
      intro text htext
      rw [← Option.some.inj htext]
      exact hcomputed
  | some text => exact ⟨h.advertised text htext, h⟩

/-- A question to the process is answered for the native profile. -/
theorem AnswersFrom.ask (h : s.AnswersFrom profiles) (query : Query) :
    (s.ask query).1 = query.answer .native ∧ (s.ask query).2.AnswersFrom profiles := by
  cases query with
  | advertisement =>
      obtain ⟨htext, hlater⟩ := h.advertise
      exact ⟨congrArg Answer.text htext, hlater⟩
  | listSupports | agreed | outcome => exact ⟨rfl, h⟩
  | supports | review | lacking | profile =>
      obtain ⟨hnative, hlater⟩ := h.nativeProfile
      refine ⟨?_, hlater⟩
      rw [← hnative]
      rfl

/-- A question to a participant is answered for its profile, and leaves the others alone. -/
theorem AnswersFrom.askOf (h : s.AnswersFrom profiles) (i : Nat) (query : Query) :
    (s.askOf i query).1 = profiles[i]?.map query.answer ∧
      (s.askOf i query).2.AnswersFrom profiles := by
  unfold Session.askOf
  rw [← h.profiles, List.getElem?_map]
  cases ha : s.participants[i]? with
  | none => exact ⟨rfl, h.native, h.advertised, rfl, h.participants⟩
  | some a =>
      obtain ⟨hanswer, hlater⟩ := (h.participants a (List.mem_of_getElem? ha)).ask query
      refine ⟨congrArg some hanswer, h.native, h.advertised, ?_, ?_⟩
      · -- The participant that was asked goes back to its place with the profile it had.
        show (s.participants.set i (a.ask query).2).map Participant.profile =
          s.participants.map Participant.profile
        obtain ⟨hi, rfl⟩ := List.getElem?_eq_some_iff.mp ha
        rw [List.map_set, hlater.profile, ← List.map_set, List.set_getElem_self]
      · intro b hb
        rcases List.mem_or_eq_of_mem_set hb with hb | rfl
        · exact h.participants b hb
        · rw [hlater.profile]
          exact hlater

/-- **A request is answered as if nothing were remembered**, and so is the next one. -/
theorem AnswersFrom.step (h : s.AnswersFrom profiles) (request : Request) :
    (s.step request).1 = request.answer profiles ∧
      (s.step request).2.AnswersFrom (profiles ++ request.joined) := by
  cases request with
  | ask query =>
      rw [Request.joined, List.append_nil]
      obtain ⟨hanswer, hlater⟩ := h.ask query
      exact ⟨congrArg some hanswer, hlater⟩
  | askOf i query =>
      rw [Request.joined, List.append_nil]
      exact h.askOf i query
  | release =>
      rw [Request.joined, List.append_nil]
      exact ⟨rfl, h.native, fun text htext => absurd htext (Option.not_mem_none text),
        h.profiles, h.participants⟩
  | join p =>
      refine ⟨rfl, h.native, h.advertised, ?_, ?_⟩
      · show (s.participants ++ [Participant.ofProfile p]).map Participant.profile = profiles ++ [p]
        rw [List.map_append, h.profiles]
        rfl
      · intro a ha
        rcases List.mem_append.mp ha with ha | ha
        · exact h.participants a ha
        · rw [List.mem_singleton.mp ha]
          exact Participant.answersFrom_ofProfile p

/-! ### Runs -/

theorem AnswersFrom.run (h : s.AnswersFrom profiles) (requests : List Request) :
    s.run requests = answersFrom profiles requests := by
  induction requests generalizing s profiles with
  | nil => rfl
  | cons request rest ih =>
      obtain ⟨hanswer, hlater⟩ := h.step request
      rw [answersFrom_cons, ← hanswer, ← ih hlater]
      rfl

theorem AnswersFrom.after (h : s.AnswersFrom profiles) (requests : List Request) :
    (s.after requests).AnswersFrom (profiles ++ joined requests) := by
  induction requests generalizing s profiles with
  | nil => simpa [Session.after, joined] using h
  | cons request rest ih =>
      have hrest := ih (h.step request).2
      rw [List.append_assoc] at hrest
      exact hrest

theorem answersFrom_after_fresh (requests : List Request) :
    (fresh.after requests).AnswersFrom (joined requests) := by
  have h := answersFrom_fresh.after requests
  rwa [List.nil_append] at h

/-- Sessions with the same participants answer alike, whatever they remember. -/
theorem AnswersFrom.run_eq {t : Session} (hs : s.AnswersFrom profiles)
    (ht : t.AnswersFrom profiles) (requests : List Request) : t.run requests = s.run requests := by
  rw [hs.run, ht.run]

/-- A request that brings no participant changes no later answer. -/
theorem run_after_concat {request : Request} (hrequest : request.joined = [])
    (requests later : List Request) :
    (fresh.after (requests ++ [request])).run later = (fresh.after requests).run later := by
  have hsame : joined (requests ++ [request]) = joined requests := by
    rw [joined, List.flatMap_append, List.flatMap_singleton, hrequest, List.append_nil]
    rfl
  have h := answersFrom_after_fresh (requests ++ [request])
  rw [hsame] at h
  exact (answersFrom_after_fresh requests).run_eq h later

/-- **What is remembered can not be seen.**  The answers to any requests are those that are
computed anew, each slot is empty or holds what would be computed in its place, no release and
no question to a participant changes a later answer, and the answer to a question never
changes. -/
theorem run_exact (requests : List Request) :
    fresh.run requests = answersFrom [] requests ∧
    (∀ text ∈ (fresh.after requests).advertised, text = Profile.native.advertisement) ∧
    (fresh.after requests).participants.map Participant.profile = joined requests ∧
    (∀ a ∈ (fresh.after requests).participants, ∀ text ∈ a.advertised,
      text = a.profile.advertisement) ∧
    (∀ later, (fresh.after (requests ++ [.release])).run later =
      (fresh.after requests).run later) ∧
    (∀ i query later, (fresh.after (requests ++ [.askOf i query])).run later =
      (fresh.after requests).run later) ∧
    (∀ query, ((fresh.after requests).ask query).1 = query.answer .native) ∧
    (∀ i p, (joined requests)[i]? = some p → ∀ later query,
      ((fresh.after (requests ++ later)).askOf i query).1 = some (query.answer p)) := by
  have h := answersFrom_after_fresh requests
  refine ⟨answersFrom_fresh.run requests, h.advertised, h.profiles, ?_, ?_, ?_, ?_, ?_⟩
  · intro a ha
    exact (h.participants a ha).advertised
  · intro later
    exact run_after_concat rfl requests later
  · intro i query later
    exact run_after_concat rfl requests later
  · intro query
    exact (h.ask query).1
  · intro i p hp later query
    have hlater := answersFrom_after_fresh (requests ++ later)
    have hjoined : (joined (requests ++ later))[i]? = some p := by
      obtain ⟨hi, -⟩ := List.getElem?_eq_some_iff.mp hp
      rw [joined, List.flatMap_append]
      exact (List.getElem?_append_left hi).trans hp
    rw [(hlater.askOf i query).1, hjoined]
    rfl

end Subprotocol.Session

/-
A participant answers from its profile, whatever it was asked before.

The only thing that a participant can remember is its advertisement, and it remembers nothing
but the text that it would compute in its place.  The first question for the advertisement
puts that text there, and no other question touches it.  So an answer is that of the profile,
at the first question and at every later one.
-/
import Subprotocol.Profile.Config
import Subprotocol.Session

namespace Subprotocol

/-- The answer of a participant with profile `p` that remembers nothing. -/
def Query.answer (p : Profile) : Query → Answer
  | .supports k v => .flag (p.supports k v)
  | .advertisement => .text p.advertisement
  | .listSupports s k v => .flag (Listing.supports s k v)
  | .review s => .verdict (p.review s)
  | .lacking wanted => .capabilities (p.lacking wanted)
  | .profile => .profile p
  | .agreed ballots threshold => .text (Consensus.agreedText ballots threshold)
  | .outcome ballots threshold => .outcome (Consensus.outcome ballots threshold)

namespace Participant

/-- The participant has the profile `p` and remembers its advertisement, if any text. -/
structure AnswersFrom (a : Participant) (p : Profile) : Prop where
  profile : a.profile = p
  advertised : ∀ s ∈ a.advertised, s = p.advertisement

/-- A participant that was set up with the configuration `s`, after any questions. -/
inductive Configured (s : String) : Participant → Prop
  | new {p : Profile} (h : (Config.mk s).profile = .ok p) : Configured s (ofProfile p)
  | asked {a : Participant} (h : Configured s a) (query : Query) : Configured s (a.ask query).2

variable {a : Participant} {p : Profile}

theorem answersFrom_ofProfile (p : Profile) : (ofProfile p).AnswersFrom p where
  profile := rfl
  advertised := by simp [ofProfile]

theorem AnswersFrom.advertise (h : a.AnswersFrom p) :
    a.advertise.1 = p.advertisement ∧ a.advertise.2.AnswersFrom p := by
  obtain rfl := h.profile
  unfold Participant.advertise
  cases hs : a.advertised with
  | none => exact ⟨rfl, rfl, fun s h => (Option.some.inj h).symm⟩
  | some s => exact ⟨h.advertised s hs, h⟩

/-- A question is answered as by the profile, and so is the next one. -/
theorem AnswersFrom.ask (h : a.AnswersFrom p) (query : Query) :
    (a.ask query).1 = query.answer p ∧ (a.ask query).2.AnswersFrom p := by
  cases query with
  | advertisement =>
      obtain ⟨htext, hlater⟩ := h.advertise
      exact ⟨congrArg Answer.text htext, hlater⟩
  | supports | listSupports | review | lacking | profile | agreed | outcome =>
      obtain rfl := h.profile
      exact ⟨rfl, h⟩

theorem Configured.exists_answersFrom {s : String} (h : Configured s a) :
    ∃ p, (Config.mk s).profile = .ok p ∧ a.AnswersFrom p := by
  induction h with
  | @new p h => exact ⟨p, h, answersFrom_ofProfile p⟩
  | asked _ query ih =>
      obtain ⟨p, hp, hanswers⟩ := ih
      exact ⟨p, hp, (hanswers.ask query).2⟩

end Participant

end Subprotocol

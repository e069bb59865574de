/-
A minority cannot push a participant out of the consensus.

What is agreed on is backed by enough ballots.  A ballot that backs a version which the
participant does not speak is one that the participant does not cover, so if the ballots that
it does not cover are too few, no such version is agreed on.  This holds of any ballots in any
order; those that cannot be read are counted as not covered, although they back nothing.

If moreover enough ballots are the participant's own, then whatever it speaks is agreed on.
The consensus is just what it speaks, and so its text is the advertisement.
-/
import Subprotocol.Poll
import Subprotocol.Proofs.Profile.Configured
import Subprotocol.Proofs.Session.Participant

namespace Subprotocol

/-! ### Ballots that are not covered -/

namespace Consensus

variable {p : Profile} {ballots : List String} {threshold : Int} {name : String} {v : Nat}

theorem supported_eq_false_of_backs (hp : p.WellFormed) {ballot : String}
    (hbacks : backs name v ballot = true) (hnot : ¬ p.capabilities.Lists name v) :
    (p.review ballot).supported = false := by
  obtain ⟨c, hparse, hlists⟩ := backs_iff_lists.mp hbacks
  have hc := Capabilities.wellFormed_of_parse hparse
  have hlacking : ¬ (p.lacking c).IsEmpty :=
    fun hempty => hnot ((Profile.lacking_isEmpty_iff hp hc).mp hempty name v hlists)
  rw [p.review_of_parse hparse, if_neg hlacking]

/-- With too few ballots that `p` does not cover, `p` speaks all that is agreed on. -/
theorem lists_of_lists_agreed (hp : p.WellFormed)
    (hfew : (ballots.countP fun b => !(p.review b).supported) < quorum threshold)
    (hagreed : (outcome ballots threshold).agreed.Lists name v) :
    p.capabilities.Lists name v := by
  by_contra hnot
  have hbackers := lists_agreed_iff.mp hagreed
  have hle : ballots.countP (backs name v) ≤ ballots.countP fun b => !(p.review b).supported := by
    refine List.countP_mono_left fun ballot _ hbacks => ?_
    rw [supported_eq_false_of_backs hp hbacks hnot]
    rfl
  omega

theorem review_agreedText (hp : p.WellFormed)
    (hfew : (ballots.countP fun b => !(p.review b).supported) < quorum threshold) :
    p.review (agreedText ballots threshold) = ⟨true, ""⟩ := by
  have hagreed := wellFormed_agreed ballots threshold
  have hempty : (p.lacking (outcome ballots threshold).agreed).IsEmpty :=
    (Profile.lacking_isEmpty_iff hp hagreed).mpr fun _ _ => lists_of_lists_agreed hp hfew
  unfold agreedText
  rw [p.review_of_parse hagreed.parse_encode, if_pos hempty]

end Consensus

/-! ### Polls -/

namespace Poll

/-- How a ballot is cast: by the participant itself, or by someone else. -/
inductive Cast
  | own
  | other (ballot : String)

def Cast.isOwn : Cast → Bool
  | .own => true
  | .other _ => false

/-- The ballot that is cast, where `p` is the profile of the participant. -/
def Cast.ballot (p : Profile) : Cast → String
  | .own => p.advertisement
  | .other ballot => ballot

/-- The poll of the native or of a configured participant, after the casts in their order and
any questions to the participant in between. -/
inductive Heard : List Cast → Poll → Prop
  | native : Heard [] (ofProfile .native)
  | configured {s : String} {poll : Poll} (h : Poll.configured s = .ok poll) : Heard [] poll
  | own {casts : List Cast} {poll : Poll} (h : Heard casts poll) :
      Heard (casts ++ [.own]) poll.castOwn
  | other {casts : List Cast} {poll : Poll} (h : Heard casts poll) (ballot : String) :
      Heard (casts ++ [.other ballot]) (poll.cast ballot)
  | asked {casts : List Cast} {poll : Poll} (h : Heard casts poll) (query : Query) :
      Heard casts { poll with participant := (poll.participant.ask query).2 }

variable {p : Profile} {casts : List Cast} {poll : Poll} {threshold : Int}

/-- A poll has the ballots that were cast, each own one the advertisement of its time. -/
theorem Heard.exists_profile (h : Heard casts poll) :
    ∃ p, p.WellFormed ∧ poll.participant.AnswersFrom p ∧
      poll.ballots = casts.map (Cast.ballot p) := by
  induction h with
  | native =>
      exact ⟨.native, Profile.wellFormed_native, Participant.answersFrom_ofProfile _, rfl⟩
  | configured h =>
      obtain ⟨p, hp, rfl⟩ := Reading.map_eq_ok_iff.mp h
      exact ⟨p, (Profile.Reachable.configured hp).wellFormed,
        Participant.answersFrom_ofProfile p, rfl⟩
  | own _ ih =>
      obtain ⟨p, hp, hanswers, hballots⟩ := ih
      refine ⟨p, hp, hanswers.advertise.2, ?_⟩
      rw [List.map_append, ← hballots]
      exact congrArg (_ ++ [·]) hanswers.advertise.1
  | other _ ballot ih =>
      obtain ⟨p, hp, hanswers, hballots⟩ := ih
      refine ⟨p, hp, hanswers, ?_⟩
      rw [List.map_append, ← hballots]
      rfl
  | asked _ query ih =>
      obtain ⟨p, hp, hanswers, hballots⟩ := ih
      exact ⟨p, hp, (hanswers.ask query).2, hballots⟩

/-! ### Own ballots and others -/

theorem backs_advertisement (hp : p.WellFormed) {name : String} {v : Nat} :
    Consensus.backs name v p.advertisement = true ↔ p.capabilities.Lists name v := by
  rw [Consensus.backs_iff_lists, hp.parse_advertisement]
  simp

/-- What the participant speaks is backed by all its own ballots. -/
theorem countP_isOwn_le (hp : p.WellFormed) {name : String} {v : Nat}
    (hlists : p.capabilities.Lists name v) (casts : List Cast) :
    casts.countP Cast.isOwn ≤ (casts.map (Cast.ballot p)).countP (Consensus.backs name v) := by
  rw [List.countP_map]
  refine List.countP_mono_left fun c _ hc => ?_
  cases c with
  | own =>
      rw [Function.comp_apply, Cast.ballot]
      exact (backs_advertisement hp).mpr hlists
  | other ballot => exact Bool.noConfusion hc

/-- What it does not speak is backed by none of them. -/
theorem countP_backs_le (hp : p.WellFormed) {name : String} {v : Nat}
    (hnot : ¬ p.capabilities.Lists name v) (casts : List Cast) :
    (casts.map (Cast.ballot p)).countP (Consensus.backs name v) ≤
      casts.countP fun c => !c.isOwn := by
  rw [List.countP_map]
  refine List.countP_mono_left fun c _ hc => ?_
  cases c with
  | own =>
      rw [Function.comp_apply, Cast.ballot] at hc
      exact absurd ((backs_advertisement hp).mp hc) hnot
  | other ballot => rfl

/-- What few others and enough own ballots agree on is what the participant speaks. -/
theorem agreed_eq_capabilities (hp : p.WellFormed)
    (hothers : (casts.countP fun c => !c.isOwn) < threshold)
    (hown : threshold ≤ casts.countP Cast.isOwn) :
    (Consensus.outcome (casts.map (Cast.ballot p)) threshold).agreed = p.capabilities := by
  have hwf := Consensus.wellFormed_agreed (casts.map (Cast.ballot p)) threshold
  refine Capabilities.eq_of_lists_iff hwf hp.capabilities fun name v => ?_
  have hquorum : Consensus.quorum threshold = threshold := by
    unfold Consensus.quorum
    omega
  rw [Consensus.lists_agreed_iff, hquorum]
  by_cases hlists : p.capabilities.Lists name v
  · have hle := countP_isOwn_le hp hlists casts
    exact iff_of_true (by omega) hlists
  · have hle := countP_backs_le hp hlists casts
    exact iff_of_false (by omega) hlists

/-- **A minority cannot push a participant out of the consensus.**  It keeps up if the ballots
that it does not cover are fewer than needed, and if the others are fewer than needed and its
own are enough, the consensus is what it advertises. -/
theorem keepsUp_of_minority (h : Heard casts poll) (threshold : Int) :
    ((poll.ballots.countP fun b => !(poll.participant.profile.review b).supported) <
      max threshold 1 → poll.keepsUp threshold = true) ∧
    ((casts.countP fun c => !c.isOwn) < threshold → threshold ≤ casts.countP Cast.isOwn →
      poll.agreed threshold = poll.participant.advertise.1) := by
  obtain ⟨p, hp, hanswers, hballots⟩ := h.exists_profile
  refine ⟨fun hfew => ?_, fun hothers hown => ?_⟩
  · unfold keepsUp
    rw [hanswers.profile] at hfew ⊢
    exact congrArg Verdict.supported (Consensus.review_agreedText hp hfew)
  · rw [hanswers.advertise.1]
    unfold Poll.agreed
    rw [hballots]
    exact congrArg Capabilities.encode (agreed_eq_capabilities hp hothers hown)

/-- Between three ballots of the native participant, one that asks for too much and one that
cannot be read.  Between three of a configured one, two that ask for too much: where three are
needed its own decide, where four are needed less is agreed on than it speaks, and where one is
enough it is pushed out. -/
theorem keepsUp_of_two_of_five :
    (∃ poll, Heard [.own, .other "Wombat=1 Link=0-9", .own, .other "Link=4-3", .own] poll ∧
      (poll.ballots.countP fun b => !(poll.participant.profile.review b).supported) = 2 ∧
      poll.keepsUp 3 = true ∧ poll.agreed 3 = poll.participant.advertise.1) ∧
    ∃ poll, Heard [.own, .other "Link=2-5", .own, .other "Link=3 Wombat=1", .own] poll ∧
      poll.participant.advertise.1 = "Link=1-3 Relay=2" ∧
      (poll.ballots.countP fun b => !(poll.participant.profile.review b).supported) = 2 ∧
      (poll.keepsUp 3 = true ∧ poll.agreed 3 = "Link=1-3 Relay=2") ∧
      (poll.keepsUp 4 = true ∧ poll.agreed 4 = "Link=2-3") ∧
      poll.keepsUp 1 = false ∧ poll.agreed 1 = "Link=1-5 Relay=2 Wombat=1" := by
  constructor
  · have hheard := (((Heard.native.own.other "Wombat=1 Link=0-9").own).other "Link=4-3").own
    refine ⟨_, hheard, (and_iff_left_of_imp fun hcount => ?_).mpr (by decide +kernel)⟩
    obtain ⟨hkeeps, hagreed⟩ := keepsUp_of_minority hheard 3
    exact ⟨hkeeps (by rw [hcount]; decide), hagreed (by decide) (by decide)⟩
  · obtain ⟨start, hstart⟩ := Reading.isOk_iff.mp
      (show (Poll.configured "Link=1-3 Relay=2").isOk = true by decide +kernel)
    have hfacts : (Poll.configured "Link=1-3 Relay=2").map (fun start =>
          let poll := (((start.castOwn.cast "Link=2-5").castOwn).cast "Link=3 Wombat=1").castOwn
          (poll.participant.advertise.1,
            poll.ballots.countP fun b => !(poll.participant.profile.review b).supported,
            poll.agreed 4, poll.keepsUp 1, poll.agreed 1)) =
        .ok ("Link=1-3 Relay=2", 2, "Link=2-3", false, "Link=1-5 Relay=2 Wombat=1") := by
      decide +kernel
    rw [hstart, Except.map, Except.ok.injEq] at hfacts
    simp only [Prod.mk.injEq] at hfacts
    obtain ⟨hadvertised, hcount, hfour, hone⟩ := hfacts
    have hheard :=
      ((((Heard.configured hstart).own.other "Link=2-5").own).other "Link=3 Wombat=1").own
    obtain ⟨hkeeps, hagreed⟩ := keepsUp_of_minority hheard 3
    obtain ⟨hkeepsAtFour, -⟩ := keepsUp_of_minority hheard 4
    refine ⟨_, hheard, hadvertised, hcount, ⟨?_, ?_⟩, ⟨?_, hfour⟩, hone⟩
    · exact hkeeps (by rw [hcount]; decide)
    · rw [hagreed (by decide) (by decide), hadvertised]
    · exact hkeepsAtFour (by rw [hcount]; decide)

end Poll

end Subprotocol

/-
The outcome depends on what the ballots mean, and on nothing else about them.

Three things can be done to ballots that leave their meaning alone: their order can change,
one can be spelled in another way that supports the same versions, and one that supports none,
because it cannot be read or is blank, can come or go.  None of them changes how many ballots
back a version of a name, and an outcome is made of these numbers only.  So the texts of the
outcomes agree, after any number of such changes.
-/
import Mathlib.Logic.Relation
import Subprotocol.Proofs.Capabilities.Canonical

namespace Subprotocol.Consensus

/-- `ballot` cannot be read, or is blank. -/
def Idle (ballot : String) : Prop :=
  (∀ c, Capabilities.parse ballot ≠ .ok c) ∨ ∀ a ∈ ballot.toList, Text.isBlank a = true

/-- One change that leaves the meaning of the ballots alone. -/
inductive Change : List String → List String → Prop
  | reorder {ballots ballots' : List String} (h : ballots.Perm ballots') : Change ballots ballots'
  | respell {before after : List String} {s t : String} {a b : Capabilities}
      (hs : Capabilities.parse s = .ok a) (ht : Capabilities.parse t = .ok b)
      (hsame : ∀ name v, v ≤ lastVersion → a.supports name v = b.supports name v) :
      Change (before ++ s :: after) (before ++ t :: after)
  | add {before after : List String} {ballot : String} (h : Idle ballot) :
      Change (before ++ after) (before ++ ballot :: after)
  | drop {before after : List String} {ballot : String} (h : Idle ballot) :
      Change (before ++ ballot :: after) (before ++ after)

/-- Any number of changes that leave the meaning of the ballots alone. -/
def SameMeaning : List String → List String → Prop := Relation.ReflTransGen Change

/-! ### Who backs a version -/

theorem Idle.not_backs {ballot : String} (h : Idle ballot) (name : String) (v : Nat) :
    ¬ backs name v ballot = true := by
  unfold backs
  cases hparse : Capabilities.parse ballot with
  | error fault => simp
  | ok c =>
      rcases h with h | h
      · exact absurd hparse (h c)
      · have hc := Capabilities.wellFormed_of_parse hparse
        show ¬ c.supports name v = true
        rw [hc.supports_iff_lists]
        exact hc.isEmpty_iff.mp ((Capabilities.isEmpty_of_parse_iff hparse).mpr h) name v

theorem backs_eq_of_supports_eq {s t : String} {a b : Capabilities}
    (hs : Capabilities.parse s = .ok a) (ht : Capabilities.parse t = .ok b)
    (h : ∀ name v, v ≤ lastVersion → a.supports name v = b.supports name v) (name : String)
    (v : Nat) : backs name v s = backs name v t := by
  have ha := Capabilities.wellFormed_of_parse hs
  have hb := Capabilities.wellFormed_of_parse ht
  unfold backs
  rw [hs, ht, (ha.eq_iff_supports hb).mpr h]

theorem Change.countP_backs {ballots ballots' : List String} (h : Change ballots ballots')
    (name : String) (v : Nat) : ballots'.countP (backs name v) = ballots.countP (backs name v) := by
  cases h with
  | reorder h => exact (h.countP_eq _).symm
  | respell hs ht hsame =>
      rw [List.countP_append, List.countP_append, List.countP_cons, List.countP_cons,
        backs_eq_of_supports_eq hs ht hsame]
  | add h =>
      rw [List.countP_append, List.countP_append, List.countP_cons_of_neg (h.not_backs name v)]
  | drop h =>
      rw [List.countP_append, List.countP_append, List.countP_cons_of_neg (h.not_backs name v)]

theorem SameMeaning.countP_backs {ballots ballots' : List String}
    (h : SameMeaning ballots ballots') (name : String) (v : Nat) :
    ballots'.countP (backs name v) = ballots.countP (backs name v) := by
  induction h with
  | refl => rfl
  | tail _ hchange ih => rw [hchange.countP_backs, ih]

/-! ### Outcomes -/

/-- What is agreed on is made of the numbers of backers. -/
theorem agreed_eq_of_countP_backs {ballots ballots' : List String}
    (h : ∀ name v, ballots'.countP (backs name v) = ballots.countP (backs name v))
    (threshold : Int) :
    (outcome ballots' threshold).agreed = (outcome ballots threshold).agreed := by
  have hwf := wellFormed_agreed ballots threshold
  refine Capabilities.eq_of_lists_iff (wellFormed_agreed ballots' threshold) hwf fun name v => ?_
  rw [lists_agreed_iff, lists_agreed_iff, h]

/-- **Ballots of one meaning have one outcome**, to the last byte. -/
theorem agreedText_of_sameMeaning {ballots ballots' : List String}
    (h : SameMeaning ballots ballots') (threshold : Int) :
    agreedText ballots' threshold = agreedText ballots threshold := by
  unfold agreedText
  rw [agreed_eq_of_countP_backs h.countP_backs]

/-- A ballot moves to the front, another is spelled differently, a blank one goes and one that
cannot be read comes. -/
theorem agreedText_of_changes :
    SameMeaning ["Link=1-2 Cons=1", " ", "Link=2"] ["Link=2", "Cons=01 Link=2,1", "Link=4-3"] ∧
      agreedText ["Link=2", "Cons=01 Link=2,1", "Link=4-3"] 2 =
        agreedText ["Link=1-2 Cons=1", " ", "Link=2"] 2 ∧
      agreedText ["Link=1-2 Cons=1", " ", "Link=2"] 2 = "Link=2" := by
  have hcanonical : Capabilities.parse "Link=1-2 Cons=1" =
      .ok ⟨[⟨"Cons", [⟨1, 1, by decide, by decide⟩]⟩,
        ⟨"Link", [⟨1, 2, by decide, by decide⟩]⟩]⟩ := by
    decide +kernel
  have hrespelled : Capabilities.parse "Cons=01 Link=2,1" =
      .ok ⟨[⟨"Cons", [⟨1, 1, by decide, by decide⟩]⟩,
        ⟨"Link", [⟨1, 2, by decide, by decide⟩]⟩]⟩ := by
    decide +kernel
  have hfault : Capabilities.parse "Link=4-3" = .error (.inverted 4 3) := by
    decide +kernel
  have hreorder : Change (["Link=1-2 Cons=1", " "] ++ ["Link=2"])
      (["Link=2"] ++ ["Link=1-2 Cons=1", " "]) := .reorder List.perm_append_comm
  have hrespell : Change (["Link=2"] ++ "Link=1-2 Cons=1" :: [" "])
      (["Link=2"] ++ "Cons=01 Link=2,1" :: [" "]) :=
    .respell hcanonical hrespelled fun _ _ _ => rfl
  have hdrop : Change (["Link=2", "Cons=01 Link=2,1"] ++ " " :: [])
      (["Link=2", "Cons=01 Link=2,1"] ++ []) := .drop (Or.inr (List.all_eq_true.mp rfl))
  have hadd : Change (["Link=2", "Cons=01 Link=2,1"] ++ [])
      (["Link=2", "Cons=01 Link=2,1"] ++ "Link=4-3" :: []) :=
    .add (Or.inl fun c => by simp [hfault])
  have hsame : SameMeaning ["Link=1-2 Cons=1", " ", "Link=2"]
      ["Link=2", "Cons=01 Link=2,1", "Link=4-3"] :=
    (((Relation.ReflTransGen.single hreorder).tail hrespell).tail hdrop).tail hadd
  exact ⟨hsame, agreedText_of_sameMeaning hsame 2, by decide +kernel⟩

end Subprotocol.Consensus

/-
Merging is the join of capabilities, ordered by what they list.

A merge works entry by entry: one that is there already has spans inserted, one that is not
is put in as it is, and which of the two happens depends on the order of the merges.  The
laws of a join are laws of equality all the same, because well formed capabilities are
determined by what they list.  So inclusion of what is listed is a partial order on the
capabilities that can come about, and a merge lists just what one of the two lists, which
makes it the least upper bound.  The laws follow from that.
-/
import Mathlib.Order.BoundedOrder.Lattice
import Subprotocol.Proofs.Capabilities.Canonical

namespace Subprotocol

/-- Capabilities that can come about. -/
@[ext] structure Attainable where
  value : Capabilities
  reachable : value.Reachable

namespace Attainable

theorem wellFormed (a : Attainable) : a.value.WellFormed := a.reachable.wellFormed

/-- The greater one lists whatever the lesser one lists. -/
instance : PartialOrder Attainable where
  le a b := ∀ name v, a.value.Lists name v → b.value.Lists name v
  le_refl a := by
    intro name v h
    exact h
  le_trans a b c hab hbc := by
    intro name v h
    exact hbc name v (hab name v h)
  le_antisymm a b hab hba := by
    refine Attainable.ext (Capabilities.eq_of_lists_iff a.wellFormed b.wellFormed ?_)
    intro name v
    exact ⟨hab name v, hba name v⟩

/-- It is enough to compare what is supported, up to the last version. -/
theorem le_iff_supports {a b : Attainable} :
    a ≤ b ↔ ∀ name v, v ≤ lastVersion → a.value.supports name v = true →
      b.value.supports name v = true := by
  simp only [a.wellFormed.supports_iff_lists, b.wellFormed.supports_iff_lists]
  refine ⟨fun h => ?_, fun h => ?_⟩
  · intro name v _ hlists
    exact h name v hlists
  · intro name v hlists
    exact h name v (Capabilities.le_lastVersion_of_lists hlists) hlists

/-- A merge is the join. -/
instance : SemilatticeSup Attainable where
  sup a b := ⟨a.value.merge b.value, .merge a.reachable b.reachable⟩
  le_sup_left a b := by
    intro name v h
    exact Capabilities.lists_merge.mpr (Or.inl h)
  le_sup_right a b := by
    intro name v h
    exact Capabilities.lists_merge.mpr (Or.inr h)
  sup_le a b c hac hbc := by
    intro name v h
    rcases Capabilities.lists_merge.mp h with ha | hb
    · exact hac name v ha
    · exact hbc name v hb

instance : OrderBot Attainable where
  bot := ⟨.empty, .empty⟩
  bot_le a := by
    intro name v h
    exact absurd h (Capabilities.not_lists_empty name v)

/-- Only what is below changes nothing when it is merged in. -/
theorem merge_eq_left_iff {a b : Attainable} : a.value.merge b.value = a.value ↔ b ≤ a := by
  rw [← sup_eq_left, Attainable.ext_iff]
  rfl

end Attainable

namespace Capabilities

/-- What is supported after a merge is what was supported on either side. -/
theorem WellFormed.supports_merge {a b : Capabilities} (ha : a.WellFormed) (hb : b.WellFormed)
    (name : String) (v : Nat) :
    (a.merge b).supports name v = (a.supports name v || b.supports name v) := by
  rw [Bool.eq_iff_iff, Bool.or_eq_true, (ha.merge hb).supports_iff_lists, lists_merge,
    ha.supports_iff_lists, hb.supports_iff_lists]

/-- **Merging is a join.**  It is commutative, associative and idempotent, the empty
capabilities are neutral on both sides, it supports just what one of the two supports, and it
leaves those alone that support all of the other. -/
theorem merge_semilattice {a b c : Capabilities} (ha : a.Reachable) (hb : b.Reachable)
    (hc : c.Reachable) :
    a.merge b = b.merge a ∧
    (a.merge b).merge c = a.merge (b.merge c) ∧
    a.merge a = a ∧
    empty.merge a = a ∧
    a.merge empty = a ∧
    (∀ name v, (a.merge b).supports name v = (a.supports name v || b.supports name v)) ∧
    (a.merge b = a ↔ ∀ name v, v ≤ lastVersion → b.supports name v = true →
      a.supports name v = true) := by
  let x : Attainable := ⟨a, ha⟩
  let y : Attainable := ⟨b, hb⟩
  let z : Attainable := ⟨c, hc⟩
  refine ⟨?_, ?_, ?_, ?_, ?_, ?_, ?_⟩
  · exact congrArg Attainable.value (sup_comm x y)
  · exact congrArg Attainable.value (sup_assoc x y z)
  · exact congrArg Attainable.value (sup_idem x)
  · exact congrArg Attainable.value (bot_sup_eq x)
  · exact congrArg Attainable.value (sup_bot_eq x)
  · exact ha.wellFormed.supports_merge hb.wellFormed
  · exact (Attainable.merge_eq_left_iff (a := x) (b := y)).trans Attainable.le_iff_supports

/-- The one fills a gap of the other, meets it at the last version and brings a name of its
own.  The third is listed by the two together, and by neither of them. -/
theorem merge_semilattice_bridged :
    ∃ a b c, parse "Link=1-2,6 Relay=4294967294" = .ok a ∧
      parse "Cons=1 Link=3-5 Relay=4294967295" = .ok b ∧ parse "Link=2-6" = .ok c ∧
      a.merge b = b.merge a ∧ (a.merge b).merge c = a.merge (b.merge c) ∧
      (a.merge b).merge (a.merge b) = a.merge b ∧
      (a.merge b).encode = "Cons=1 Link=1-6 Relay=4294967294-4294967295" ∧
      a.merge b ≠ a ∧
      ∀ name v, v ≤ lastVersion → c.supports name v = true → (a.merge b).supports name v = true := by
  have ha : parse "Link=1-2,6 Relay=4294967294" =
      .ok ⟨[⟨"Link", [⟨1, 2, by decide, by decide⟩, ⟨6, 6, by decide, by decide⟩]⟩,
        ⟨"Relay", [⟨4294967294, 4294967294, by decide, by decide⟩]⟩]⟩ := by
    decide +kernel
  have hb : parse "Cons=1 Link=3-5 Relay=4294967295" =
      .ok ⟨[⟨"Cons", [⟨1, 1, by decide, by decide⟩]⟩, ⟨"Link", [⟨3, 5, by decide, by decide⟩]⟩,
        ⟨"Relay", [⟨4294967295, 4294967295, by decide, by decide⟩]⟩]⟩ := by
    decide +kernel
  have hc : parse "Link=2-6" = .ok ⟨[⟨"Link", [⟨2, 6, by decide, by decide⟩]⟩]⟩ := by
    decide +kernel
  have hab := Reachable.merge (.parse ha) (.parse hb)
  obtain ⟨hcomm, hassoc, -, -, -, -, hleft⟩ :=
    merge_semilattice (.parse ha) (.parse hb) (.parse hc)
  obtain ⟨-, -, hidem, -, -, -, hcovered⟩ := merge_semilattice hab (.parse hc) hab
  refine ⟨_, _, _, ha, hb, hc, hcomm, hassoc, hidem, by decide +kernel, fun hsame => ?_, ?_⟩
  · have hcons := hleft.mp hsame "Cons" 1 (by decide) (by decide +kernel)
    exact absurd hcons (by decide +kernel)
  · exact hcovered.mp (by decide +kernel)

end Capabilities

end Subprotocol

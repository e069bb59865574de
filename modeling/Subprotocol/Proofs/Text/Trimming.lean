/-
Texts without the blanks at their two ends.

What is left of a text lies between blanks and has none at either end.  There is just one such
piece.  Whatever stands in front of it and behind it is dropped, and its own ends stop the drop;
a text of blanks has no ends to stop at, and nothing is left of it.
-/
import Mathlib.Data.List.TakeWhile
import Subprotocol.Proofs.Text.Chunks

namespace Subprotocol.Text

/-- `t` is `s` without the blanks at its two ends. -/
structure IsTrimmed (s t : List Char) : Prop where
  head : ∀ c ∈ t.head?, isBlank c = false
  last : ∀ c ∈ t.getLast?, isBlank c = false
  within : ∃ lead trail, s = lead ++ t ++ trail ∧ (∀ c ∈ lead, isBlank c = true) ∧
    ∀ c ∈ trail, isBlank c = true

variable {s t lead : List Char}

/-! ### Blanks at one end -/

theorem exists_lead (s : List Char) :
    ∃ lead t, s = lead ++ t ∧ (∀ c ∈ lead, isBlank c = true) ∧
      ∀ c ∈ t.head?, isBlank c = false := by
  induction s with
  | nil => exact ⟨[], [], rfl, by simp, by simp⟩
  | cons a s ih =>
      by_cases ha : isBlank a = true
      · obtain ⟨lead, t, hs, hlead, ht⟩ := ih
        exact ⟨a :: lead, t, by rw [hs, List.cons_append], List.forall_mem_cons.mpr ⟨ha, hlead⟩, ht⟩
      · exact ⟨[], a :: s, rfl, by simp, by simpa using ha⟩

theorem exists_trail (s : List Char) :
    ∃ t trail, s = t ++ trail ∧ (∀ c ∈ trail, isBlank c = true) ∧
      ∀ c ∈ t.getLast?, isBlank c = false := by
  obtain ⟨lead, t, hs, hlead, ht⟩ := exists_lead s.reverse
  refine ⟨t.reverse, lead.reverse, ?_, fun c hc => hlead c (List.mem_reverse.mp hc), ?_⟩
  · rw [← List.reverse_append, ← hs, List.reverse_reverse]
  · rwa [List.getLast?_reverse]

private theorem dropWhile_blanks (hlead : ∀ c ∈ lead, isBlank c = true)
    (ht : ∀ c ∈ t.head?, isBlank c = false) : (lead ++ t).dropWhile isBlank = t := by
  rw [List.dropWhile_append_of_pos hlead]
  cases t with
  | nil => rfl
  | cons c t => exact List.dropWhile_cons_of_neg (by simp [ht c rfl])

/-! ### Blanks at both ends -/

theorem trim_of_blank (h : ∀ c ∈ s, isBlank c = true) : trim s = [] := by
  rw [trim, List.dropWhile_eq_nil_iff.mpr h]
  rfl

private theorem IsTrimmed.trim_eq (h : IsTrimmed s t) : trim s = t := by
  obtain ⟨lead, trail, hs, hlead, htrail⟩ := h.within
  by_cases ht : t = []
  · rw [ht, List.append_nil] at hs
    rw [ht, hs]
    exact trim_of_blank (List.forall_mem_append.mpr ⟨hlead, htrail⟩)
  · have hhead : ∀ c ∈ (t ++ trail).head?, isBlank c = false := by
      obtain ⟨a, rest, rfl⟩ := List.exists_cons_of_ne_nil ht
      exact h.head
    have hbehind : ∀ c ∈ trail.reverse, isBlank c = true := by
      intro c hc
      exact htrail c (List.mem_reverse.mp hc)
    have hlast : ∀ c ∈ t.reverse.head?, isBlank c = false := by
      rw [List.head?_reverse]
      exact h.last
    rw [trim, hs, List.append_assoc, dropWhile_blanks hlead hhead, List.reverse_append,
      dropWhile_blanks hbehind hlast, List.reverse_reverse]

theorem isTrimmed_trim (s : List Char) : IsTrimmed s (trim s) := by
  obtain ⟨lead, u, hs, hlead, hhead⟩ := exists_lead s
  obtain ⟨t, trail, hu, htrail, hlast⟩ := exists_trail u
  have htrimmed : IsTrimmed s t := by
    refine ⟨fun c hc => hhead c ?_, hlast, lead, trail, ?_, hlead, htrail⟩
    · rw [hu, List.head?_append, hc]
      rfl
    · rw [hs, hu, List.append_assoc]
  rw [htrimmed.trim_eq]
  exact htrimmed

/-- **There is one way to trim a text.** -/
theorem isTrimmed_iff : IsTrimmed s t ↔ trim s = t := by
  refine ⟨fun h => h.trim_eq, fun h => ?_⟩
  rw [← h]
  exact isTrimmed_trim s

theorem trim_eq_nil_iff : trim s = [] ↔ ∀ c ∈ s, isBlank c = true := by
  refine ⟨fun h => ?_, trim_of_blank⟩
  obtain ⟨lead, trail, hs, hlead, htrail⟩ := (isTrimmed_trim s).within
  rw [h, List.append_nil] at hs
  rw [hs]
  exact List.forall_mem_append.mpr ⟨hlead, htrail⟩

end Subprotocol.Text

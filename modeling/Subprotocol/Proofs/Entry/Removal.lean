/-
Taking versions away is exact when the covers ascend, and safe when they do not.

Exactness needs ascending covers: the walk along a span has only one cursor, which never goes
back, so a cover that reaches behind it comes too late.  Callers bring the spans of an entry,
and those ascend.

Nothing else needs it.  Whatever the covers, the bounds that a walk comes up with lie inside
the span that is walked, in order, and no two of them meet; so each pair makes a span, and what
is left is an entry of the same name with separate spans.  It may still list a version that
some cover holds, but it lists none that the entry did not, and it has lost none that no cover
holds.  A participant that is handed covers in disorder asks for too much, never for too little.
-/
import Subprotocol.Proofs.Capabilities.Reachable

namespace Subprotocol.Entry

/-- **Taking versions away is exact for ascending covers and safe for any.**  Ascending covers
take away what they hold and nothing else.  Covers in any order lead the walks to bounds that are
in order and fit, so that each pair makes a span; they keep the name, leave separate spans, add no
version, and lose none that they do not hold. -/
theorem remove_exact {e : Entry} (he : e.Reachable) (covers : Spans) :
    (covers.Ascending →
      ∀ v, (e.remove covers).supports v = true ↔ e.supports v = true ∧ ¬ covers.Holds v) ∧
    (∀ b ∈ e.spans.flatMap fun s => Spans.gaps s.high covers s.low,
      b.1 ≤ b.2 ∧ b.2 ≤ lastVersion) ∧
    (e.spans.flatMap fun s => Spans.gaps s.high covers s.low).map
        (fun b => Span.ofBounds b.1 b.2) = (e.remove covers).spans.map Except.ok ∧
    (e.remove covers).name = e.name ∧
    (e.remove covers).spans.Separated ∧
    (∀ v, (e.remove covers).supports v = true → e.supports v = true) ∧
    ∀ v, e.supports v = true → ¬ covers.Holds v → (e.remove covers).supports v = true := by
  have hleft : (e.remove covers).WellFormed := he.wellFormed.apply (.remove covers)
  simp only [hleft.supports_iff_holds, he.wellFormed.supports_iff_holds]
  refine ⟨?_, ?_, Spans.map_ofBounds_gaps e.spans covers, rfl, hleft.separated, ?_, ?_⟩
  · intro hascending v
    exact Spans.holds_remove hascending
  · intro b hb
    exact Spans.bounds_of_mem_flatMap_gaps hb
  · intro v h
    exact Spans.holds_of_holds_remove h
  · intro v h hfree
    exact Spans.holds_remove_of_free h hfree

/-- The same covers in order and out of order, among them one that lies inside another, two side
by side and one that ends with the last version.  Out of order version 1 stays, though it is
held. -/
theorem remove_exact_disordered :
    ∃ (e : Entry) (ordered disordered : Spans),
      Entry.parse "Link=0-9,20,4294967290-4294967295" = .ok e ∧
      ordered = [⟨1, 2, by decide, by decide⟩, ⟨5, 8, by decide, by decide⟩,
        ⟨6, 7, by decide, by decide⟩, ⟨9, 9, by decide, by decide⟩,
        ⟨4294967293, 4294967295, by decide, by decide⟩] ∧
      disordered = ordered.reverse ∧
      (e.remove ordered).text = "Link=0,3-4,20,4294967290-4294967292" ∧
      (∀ v, (e.remove ordered).supports v = true ↔ e.supports v = true ∧ ¬ ordered.Holds v) ∧
      (e.remove disordered).text = "Link=0-8,20,4294967290-4294967292" ∧
      (e.remove disordered).supports 1 = true ∧ disordered.Holds 1 ∧
      ∀ v, e.supports v = true → ¬ disordered.Holds v →
        (e.remove disordered).supports v = true := by
  have he : Entry.parse "Link=0-9,20,4294967290-4294967295" =
      .ok ⟨"Link", [⟨0, 9, by decide, by decide⟩, ⟨20, 20, by decide, by decide⟩,
        ⟨4294967290, 4294967295, by decide, by decide⟩]⟩ := by
    decide +kernel
  let ordered : Spans := [⟨1, 2, by decide, by decide⟩, ⟨5, 8, by decide, by decide⟩,
    ⟨6, 7, by decide, by decide⟩, ⟨9, 9, by decide, by decide⟩,
    ⟨4294967293, 4294967295, by decide, by decide⟩]
  obtain ⟨hexact, -⟩ := remove_exact (.parse he) ordered
  obtain ⟨-, -, -, -, -, -, hkept⟩ := remove_exact (.parse he) ordered.reverse
  refine ⟨_, ordered, ordered.reverse, he, rfl, rfl, by decide +kernel, hexact ?_,
    by decide +kernel, by decide +kernel, by decide +kernel, hkept⟩
  show ordered.Pairwise fun a b => a.low ≤ b.low
  decide

end Subprotocol.Entry

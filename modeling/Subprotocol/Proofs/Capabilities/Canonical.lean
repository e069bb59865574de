/-
One text for each value, and one value for each text.

Capabilities that can come about are well formed, and well formed ones are determined by
what they list.  Writing them out and reading them back returns them, so their canonical
texts differ whenever they do.  For two texts that are read this means that they have the
same canonical text, and with it the same digest, exactly when they describe the same
versions under the same names.
-/
import Subprotocol.Interchange
import Subprotocol.Proofs.Capabilities.Reachable

namespace Subprotocol

open Listing

/-! ### Values and what they support -/

namespace Capabilities

theorem WellFormed.supports_eq_iff {a b : Capabilities} (ha : a.WellFormed) (hb : b.WellFormed)
    {name : String} {v : Nat} :
    a.supports name v = b.supports name v ↔ (a.Lists name v ↔ b.Lists name v) := by
  rw [Bool.eq_iff_iff, ha.supports_iff_lists, hb.supports_iff_lists]

/-- Nothing past the last version is listed, so agreement up to it is agreement. -/
theorem WellFormed.eq_iff_supports {a b : Capabilities} (ha : a.WellFormed) (hb : b.WellFormed) :
    a = b ↔ ∀ name v, v ≤ lastVersion → a.supports name v = b.supports name v := by
  constructor
  · intro h name v _
    rw [h]
  · intro h
    refine eq_of_lists_iff ha hb fun name v => ?_
    by_cases hv : v ≤ lastVersion
    · exact (ha.supports_eq_iff hb).mp (h name v hv)
    · constructor
      · intro hlists
        exact absurd (le_lastVersion_of_lists hlists) hv
      · intro hlists
        exact absurd (le_lastVersion_of_lists hlists) hv

theorem WellFormed.encode_eq_iff {a b : Capabilities} (ha : a.WellFormed) (hb : b.WellFormed) :
    a.encode = b.encode ↔ a = b :=
  ⟨ha.encode_injective hb, fun h => by rw [h]⟩

end Capabilities

/-! ### Texts and what they describe -/

namespace Listing

theorem canonical_of_parse {s : String} {c : Capabilities} (h : Capabilities.parse s = .ok c) :
    canonical s = .ok c.encode := by
  rw [canonical, h]
  rfl

theorem isCanonical_iff_of_parse {s : String} {c : Capabilities}
    (h : Capabilities.parse s = .ok c) : IsCanonical s ↔ c.encode = s := by
  unfold IsCanonical
  rw [canonical_of_parse h]
  simp [Except.toOption]

theorem not_isCanonical_of_not_parse {s : String} {fault : Fault}
    (h : Capabilities.parse s = .error fault) : ¬ IsCanonical s := by
  unfold IsCanonical canonical
  rw [h]
  simp [Except.map, Except.toOption]

theorem canonical_eq_iff {s t : String} {a b : Capabilities} (hs : Capabilities.parse s = .ok a)
    (ht : Capabilities.parse t = .ok b) : canonical s = canonical t ↔ a = b := by
  rw [canonical_of_parse hs, canonical_of_parse ht, Except.ok.injEq]
  exact (Capabilities.wellFormed_of_parse hs).encode_eq_iff (Capabilities.wellFormed_of_parse ht)

theorem supports_eq_iff_describes {s t : String} {a b : Capabilities}
    (hs : Capabilities.parse s = .ok a) (ht : Capabilities.parse t = .ok b) {name : String}
    {v : Nat} :
    a.supports name v = b.supports name v ↔
      (Describes s.toList name v ↔ Describes t.toList name v) := by
  rw [(Capabilities.wellFormed_of_parse hs).supports_eq_iff (Capabilities.wellFormed_of_parse ht),
    Capabilities.lists_iff_describes hs, Capabilities.lists_iff_describes ht]

/-- Lists with one canonical text have one digest, by whatever function. -/
theorem digestBy_eq_of_canonical_eq {s t : String} {a b : Capabilities}
    (hs : Capabilities.parse s = .ok a) (ht : Capabilities.parse t = .ok b)
    (h : canonical s = canonical t) (hash : List UInt8 → List UInt8) :
    a.digestBy hash = b.digestBy hash := by
  rw [canonical_of_parse hs, canonical_of_parse ht, Except.ok.injEq] at h
  rw [Capabilities.digestBy, Capabilities.digestBy, h]

/-- A canonical text is canonical itself. -/
theorem canonical_canonical {s : String} {c : Capabilities} (h : Capabilities.parse s = .ok c) :
    canonical c.encode = canonical s := by
  rw [canonical_of_parse h, canonical_of_parse (Capabilities.wellFormed_of_parse h).parse_encode]

end Listing

namespace Capabilities

/-- **The canonical form is unique.**  Supporting the same versions, being equal and having
equal texts are one thing, and two lists that are read have one canonical text exactly when
they describe the same versions. -/
theorem canonical_form_unique {a b : Capabilities} (ha : a.Reachable) (hb : b.Reachable) :
    ((∀ name v, v ≤ lastVersion → a.supports name v = b.supports name v) ↔ a = b) ∧
    (a = b ↔ a.encode = b.encode) ∧
    ∀ s t, parse s = .ok a → parse t = .ok b →
      (canonical s = canonical t ↔
        ∀ name v, v ≤ lastVersion →
          (Describes s.toList name v ↔ Describes t.toList name v)) ∧
      (canonical s = canonical t → a.digest = b.digest) := by
  have heq := ha.wellFormed.eq_iff_supports hb.wellFormed
  refine ⟨heq.symm, (ha.wellFormed.encode_eq_iff hb.wellFormed).symm, fun s t hs ht => ⟨?_, ?_⟩⟩
  · rw [canonical_eq_iff hs ht, heq]
    simp only [supports_eq_iff_describes hs ht]
  · intro hsame
    exact digestBy_eq_of_canonical_eq hs ht hsame Blake3.hash

/-- Two spellings of one list. -/
theorem canonical_form_respelled :
    ∃ c, parse "Link=3,1-2 Cons=1" = .ok c ∧ parse "Cons=1 Link=01-03 Link=2" = .ok c ∧
      ∀ name v, v ≤ lastVersion →
        (Describes "Link=3,1-2 Cons=1".toList name v ↔
          Describes "Cons=1 Link=01-03 Link=2".toList name v) := by
  have hs : parse "Link=3,1-2 Cons=1" =
      .ok ⟨[⟨"Cons", [⟨1, 1, by decide, by decide⟩]⟩, ⟨"Link", [⟨1, 3, by decide, by decide⟩]⟩]⟩ := by
    decide +kernel
  have ht : parse "Cons=1 Link=01-03 Link=2" =
      .ok ⟨[⟨"Cons", [⟨1, 1, by decide, by decide⟩]⟩, ⟨"Link", [⟨1, 3, by decide, by decide⟩]⟩]⟩ := by
    decide +kernel
  obtain ⟨-, -, htexts⟩ := canonical_form_unique (.parse hs) (.parse ht)
  exact ⟨_, hs, ht, (htexts _ _ hs ht).1.mp (by rw [canonical, canonical, hs, ht])⟩

/-- **Decoding undoes encoding.**  What can come about is read back from its canonical text
and from its JSON form, which is that text, and canonical texts are the texts that stay as they
are. -/
theorem decode_encode {c : Capabilities} (hc : c.Reachable) :
    parse c.encode = .ok c ∧ c.toJson = .ofText c.encode ∧ ofJson c.toJson = .ok c ∧
    ∀ s d, parse s = .ok d →
      ∃ t, canonical s = .ok t ∧ canonical t = .ok t ∧ IsCanonical t := by
  have hback := hc.wellFormed.parse_encode
  refine ⟨hback, rfl, ?_, fun s d hs => ⟨d.encode, canonical_of_parse hs, ?_, ?_⟩⟩
  · rw [toJson, ofJson, Json.ofText, Json.text?]
    simp only [hback]
    rfl
  · rw [canonical_canonical hs, canonical_of_parse hs]
  · exact (wellFormed_of_parse hs).isCanonical_encode

/-- The full span of versions, under a name past the ASCII characters. -/
theorem decode_encode_unicode :
    ∃ c, parse "Größe=0-4294967295 Cons=7,5" = .ok c ∧ parse c.encode = .ok c ∧
      c.toJson = .ofText "Cons=5,7 Größe=0-4294967295" ∧ ofJson c.toJson = .ok c := by
  have hs : parse "Größe=0-4294967295 Cons=7,5" =
      .ok ⟨[⟨"Cons", [⟨5, 5, by decide, by decide⟩, ⟨7, 7, by decide, by decide⟩]⟩,
        ⟨"Größe", [⟨0, 4294967295, by decide, by decide⟩]⟩]⟩ := by
    decide +kernel
  obtain ⟨hback, htext, hjson, -⟩ := decode_encode (.parse hs)
  exact ⟨_, hs, hback, htext.trans (congrArg Json.ofText (by decide +kernel)), hjson⟩

end Capabilities

end Subprotocol

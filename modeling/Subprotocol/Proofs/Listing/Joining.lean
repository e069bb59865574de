/-
Lists joined by a blank are merged.

A blank ends whatever chunk stands in front of it and belongs to none, so the words of the
joined text are those of the one list followed by those of the other.  That holds of any two
texts, blank ones and texts that end in blanks among them.  The words are read from left to
right, so the first list is judged before the second.

The two sides differ in how they collect what was read.  The joined text puts the entries of
the second list one by one into what the first one lists, and may find each name there
already.  A merge collects the second list by itself first, and puts whole entries in.  Both
results are well formed and list the same pairs, so they are the same value.
-/
import Subprotocol.Listing.Canonical
import Subprotocol.Proofs.Listing.Acceptance

namespace Subprotocol

open Listing Text

variable {blank : Char}

theorem Listing.readEntries_append_blank (hblank : isBlank blank = true) (s t : List Char) :
    readEntries (s ++ blank :: t) = (do
      let entries ← readEntries s
      let later ← readEntries t
      pure (entries ++ later)) := by
  unfold readEntries
  rw [words_append_blank hblank, List.mapM_append]

namespace Capabilities

/-- Reading a joined text is reading one list after the other and merging what they list. -/
theorem parse_joined (hblank : isBlank blank = true) (a b : String) :
    parse (a ++ String.singleton blank ++ b) = (do
      let c ← parse a
      let d ← parse b
      pure (c.merge d)) := by
  have hchars : (a ++ String.singleton blank ++ b).toList = a.toList ++ blank :: b.toList := by
    rw [String.toList_append, String.toList_append, String.toList_singleton, List.append_assoc,
      List.singleton_append]
  unfold parse read
  rw [hchars, readEntries_append_blank hblank]
  cases ha : readEntries a.toList with
  | error fault => rfl
  | ok entries =>
      cases hb : readEntries b.toList with
      | error fault => rfl
      | ok later =>
          show Except.ok (ofEntries (entries ++ later)) =
            Except.ok ((ofEntries entries).merge (ofEntries later))
          rw [ofEntries_append (wellFormed_of_readEntries ha) (wellFormed_of_readEntries hb)]

theorem parse_joined_of_parse (hblank : isBlank blank = true) {a b : String} {c d : Capabilities}
    (ha : parse a = .ok c) (hb : parse b = .ok d) :
    parse (a ++ String.singleton blank ++ b) = .ok (c.merge d) := by
  rw [parse_joined hblank, ha, hb]
  rfl

/-- A list that cannot be read spoils the joined text, on whichever side it stands. -/
theorem not_parse_joined (hblank : isBlank blank = true) {a b : String} {fault : Fault}
    (h : parse a = .error fault ∨ parse b = .error fault) :
    ∃ first, parse (a ++ String.singleton blank ++ b) = .error first := by
  rw [parse_joined hblank]
  cases ha : parse a with
  | error first => exact ⟨first, rfl⟩
  | ok c =>
      have hb : parse b = .error fault := h.resolve_left (by simp [ha])
      rw [hb]
      exact ⟨fault, rfl⟩

/-- Reading any texts joined by spaces is reading one after the other, up to the first fault, and
taking the union of what they list. -/
theorem parse_intercalate (texts : List String) :
    parse (" ".intercalate texts) = (texts.mapM parse).map union := by
  induction texts with
  | nil => rfl
  | cons t rest ih =>
      have hjoined : parse (" ".intercalate (t :: rest)) = (do
          let c ← parse t
          let d ← (rest.mapM parse).map union
          pure (c.merge d)) := by
        by_cases hrest : rest = []
        · rw [hrest, String.intercalate_singleton]
          cases parse t <;> rfl
        · have hspace : isBlank ' ' = true := by decide
          have hcut := parse_joined hspace t (" ".intercalate rest)
          rw [show String.singleton ' ' = " " from rfl, ih] at hcut
          rw [String.intercalate_cons_of_ne_nil hrest, hcut]
      rw [hjoined, List.mapM_cons]
      cases ht : parse t with
      | error fault => rfl
      | ok c =>
          cases hrest : rest.mapM parse with
          | error fault => rfl
          | ok parts =>
              have hparts : ∀ d ∈ parts, d.WellFormed := by
                intro d hd
                obtain ⟨w, -, hw⟩ := (Reading.mem_of_mapM hrest).mp hd
                exact wellFormed_of_parse hw
              exact congrArg Except.ok (union_cons (wellFormed_of_parse ht) hparts).symm

/-- **Reading turns joining into merging.**  A fault in the first list is that of the joined
text, else one in the second list is, else the joined text lists what the two list together. -/
theorem parse_joined_exact (hblank : isBlank blank = true) (a b : String) :
    (∀ fault, parse a = .error fault →
      parse (a ++ String.singleton blank ++ b) = .error fault) ∧
    (∀ c fault, parse a = .ok c → parse b = .error fault →
      parse (a ++ String.singleton blank ++ b) = .error fault) ∧
    (∀ c d, parse a = .ok c → parse b = .ok d →
      parse (a ++ String.singleton blank ++ b) = .ok (c.merge d)) := by
  rw [parse_joined hblank]
  refine ⟨?_, ?_, ?_⟩
  · intro fault ha
    rw [ha]
    rfl
  · intro c fault ha hb
    rw [ha, hb]
    rfl
  · intro c d ha hb
    rw [ha, hb]
    rfl

/-- An ideographic space joins two lists with a name in common, a newline two lists with a
fault in each, and a tab a list of blanks and a list with a fault. -/
theorem parse_joined_exact_unicode :
    (∃ c d, parse "Link=5,1-2 Größe=0" = .ok c ∧ parse "Cons=1 Link=3,2 Cons=2" = .ok d ∧
      parse ("Link=5,1-2 Größe=0" ++ String.singleton '\u3000' ++ "Cons=1 Link=3,2 Cons=2") =
        .ok (c.merge d) ∧
      (c.merge d).encode = "Cons=1-2 Größe=0 Link=1-3,5") ∧
    parse ("Link=4-3 Cons=1" ++ String.singleton '\n' ++ "Cons") = .error (.inverted 4 3) ∧
    parse ("  " ++ String.singleton '\t' ++ "Cons") =
      .error (.malformed (.missingEquals "Cons")) := by
  refine ⟨?_, ?_, ?_⟩
  · obtain ⟨c, ha⟩ := Reading.isOk_iff.mp
      (show (parse "Link=5,1-2 Größe=0").isOk = true by decide +kernel)
    obtain ⟨d, hb⟩ := Reading.isOk_iff.mp
      (show (parse "Cons=1 Link=3,2 Cons=2").isOk = true by decide +kernel)
    have hblank : isBlank '\u3000' = true := by decide
    have hjoined := (parse_joined_exact hblank _ _).2.2 c d ha hb
    refine ⟨c, d, ha, hb, hjoined, ?_⟩
    have hencoded : (parse ("Link=5,1-2 Größe=0" ++ String.singleton '\u3000' ++
        "Cons=1 Link=3,2 Cons=2")).map encode = .ok "Cons=1-2 Größe=0 Link=1-3,5" := by
      decide +kernel
    rw [hjoined] at hencoded
    exact Except.ok.inj hencoded
  · exact (parse_joined_exact (by decide) _ _).1 _ (by decide +kernel)
  · exact (parse_joined_exact (by decide) _ _).2.1 empty _ (by decide +kernel) (by decide +kernel)

end Capabilities

end Subprotocol

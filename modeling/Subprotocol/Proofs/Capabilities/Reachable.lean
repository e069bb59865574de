/-
Which entries and capabilities can come about.

Entries are made from names, spans and texts, are changed by edits, and can be taken out of
capabilities.  Capabilities are read, collected and merged, and they come out of votes and
of comparisons with a profile.  Since each is made from the other, they are reached
together.

All of them are well formed, one operation at a time.  The converse holds for capabilities,
because well formed ones are read back from their own canonical text.  So what is proved of
well formed capabilities is proved of exactly those that can come about.
-/
import Subprotocol.Compatibility
import Subprotocol.Proofs.Consensus.Outcome

namespace Subprotocol

mutual

/-- The entries that some operations lead to. -/
inductive Entry.Reachable : Entry → Prop
  | named {name : String} {e : Entry} (h : Entry.named name = .ok e) : Entry.Reachable e
  | ofSpans {name : String} {spans : Spans} {e : Entry} (h : Entry.ofSpans name spans = .ok e) :
      Entry.Reachable e
  | parse {s : String} {e : Entry} (h : Entry.parse s = .ok e) : Entry.Reachable e
  | apply {e : Entry} (he : Entry.Reachable e) (edit : Entry.Edit) : Entry.Reachable (e.apply edit)
  | member {c : Capabilities} (hc : Capabilities.Reachable c) {e : Entry} (he : e ∈ c.entries) :
      Entry.Reachable e

/-- The capabilities that some operations lead to. -/
inductive Capabilities.Reachable : Capabilities → Prop
  | empty : Capabilities.Reachable Capabilities.empty
  | parse {s : String} {c : Capabilities} (h : Capabilities.parse s = .ok c) :
      Capabilities.Reachable c
  | insertSpan {c d : Capabilities} (hc : Capabilities.Reachable c) {name : String} {s : Span}
      (h : c.insertSpan name s = .ok d) : Capabilities.Reachable d
  | insertEntry {c : Capabilities} (hc : Capabilities.Reachable c) {e : Entry}
      (he : Entry.Reachable e) : Capabilities.Reachable (c.insertEntry e)
  | ofEntries {entries : List Entry} (h : ∀ e ∈ entries, Entry.Reachable e) :
      Capabilities.Reachable (Capabilities.ofEntries entries)
  | merge {c d : Capabilities} (hc : Capabilities.Reachable c) (hd : Capabilities.Reachable d) :
      Capabilities.Reachable (c.merge d)
  | agreed (ballots : List String) (threshold : Int) :
      Capabilities.Reachable (Consensus.outcome ballots threshold).agreed
  | lacking (p : Profile) {c : Capabilities} (hc : Capabilities.Reachable c) :
      Capabilities.Reachable (p.lacking c)

end

/-! ### Each operation on entries -/

namespace Entry

theorem wellFormed_of_named {name : String} {e : Entry} (h : named name = .ok e) :
    e.WellFormed := by
  simp only [named] at h
  split at h
  · rename_i hname
    simp only [Except.ok.injEq] at h
    rw [← h]
    exact ⟨hname, List.Pairwise.nil⟩
  · simp at h

theorem wellFormed_of_ofSpans {name : String} {spans : Spans} {e : Entry}
    (h : ofSpans name spans = .ok e) : e.WellFormed := by
  obtain ⟨f, hf, hfe⟩ := Reading.map_eq_ok_iff.mp h
  rw [← hfe]
  exact ⟨(wellFormed_of_named hf).name, Spans.separated_ofList spans⟩

theorem WellFormed.apply {e : Entry} (he : e.WellFormed) (edit : Edit) :
    (e.apply edit).WellFormed := by
  cases edit with
  | insert s => exact ⟨he.name, Spans.separated_insert he.separated⟩
  | absorb other => exact he.absorb other
  | remove covers => exact ⟨he.name, Spans.separated_remove he.separated covers⟩
  | clear => exact ⟨he.name, List.Pairwise.nil⟩

end Entry

/-! ### Each operation on capabilities -/

namespace Capabilities

theorem WellFormed.of_insertSpan {c d : Capabilities} (hc : c.WellFormed) {name : String}
    {s : Span} (h : c.insertSpan name s = .ok d) : d.WellFormed := by
  simp only [insertSpan] at h
  split at h
  · rename_i hname
    simp only [Except.ok.injEq] at h
    -- A name that is there already was checked when it came in.
    have hvalid : ValidName name := by
      rcases hname with hsome | hvalid
      · obtain ⟨e, hget⟩ := Option.isSome_iff_exists.mp hsome
        obtain ⟨he, hen⟩ := mem_of_get? hget
        rw [← hen]
        exact (hc.entry e he).name
      · exact hvalid
    rw [← h]
    exact hc.insertEntry ⟨hvalid, List.pairwise_singleton _ s⟩
  · simp at h

theorem WellFormed.lacking (p : Profile) {c : Capabilities} (hc : c.WellFormed) :
    (p.lacking c).WellFormed := by
  refine WellFormed.ofEntries fun e he => ?_
  obtain ⟨f, hf, rfl⟩ := List.mem_map.mp he
  rw [Profile.lackingOf]
  cases p.entryNamed? f.name with
  | none => exact hc.entry f hf
  | some own =>
      exact ⟨(hc.entry f hf).name, Spans.separated_remove (hc.entry f hf).separated own.spans⟩

end Capabilities

/-! ### All operations together -/

mutual

theorem Entry.Reachable.wellFormed {e : Entry} : e.Reachable → e.WellFormed
  | .named h => Entry.wellFormed_of_named h
  | .ofSpans h => Entry.wellFormed_of_ofSpans h
  | .parse h => (Entry.wellFormed_of_read h).1
  | .apply he edit => he.wellFormed.apply edit
  | .member hc he => hc.wellFormed.entry _ he

theorem Capabilities.Reachable.wellFormed {c : Capabilities} : c.Reachable → c.WellFormed
  | .empty => Capabilities.WellFormed.empty
  | .parse h => Capabilities.wellFormed_of_parse h
  | .insertSpan hc h => hc.wellFormed.of_insertSpan h
  | .insertEntry hc he => hc.wellFormed.insertEntry he.wellFormed
  | .ofEntries h => Capabilities.WellFormed.ofEntries fun e he => (h e he).wellFormed
  | .merge hc hd => hc.wellFormed.merge hd.wellFormed
  | .agreed ballots threshold => Consensus.wellFormed_agreed ballots threshold
  | .lacking p hc => hc.wellFormed.lacking p

end

/-- Reachable are exactly the well formed capabilities. -/
theorem Capabilities.reachable_iff_wellFormed {c : Capabilities} : c.Reachable ↔ c.WellFormed :=
  ⟨fun h => h.wellFormed, fun h => .parse h.parse_encode⟩

end Subprotocol

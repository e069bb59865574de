/-
Every history keeps capabilities well formed and lists what its steps contributed.

Whether a step succeeds is a matter of the text or the name that it brings.  It does not depend
on the capabilities it is tried on, although a span is added under a name that is there already
without a look at the name: well formed capabilities hold no invalid name.  A step that
succeeds replaces what was listed or keeps it, and adds what it contributes.  One that fails
does so before it has changed anything, and leaves what it found.

So what is listed after a history follows from the history alone, by induction on its last
step.  A version of a name is listed exactly when some successful step contributed it and no
successful step behind it replaced everything.
-/
import Mathlib.Data.List.Induction
import Subprotocol.Capabilities.History
import Subprotocol.Listing.Canonical
import Subprotocol.Proofs.Capabilities.Reachable

namespace Subprotocol.Capabilities

open Listing

/-! ### Steps -/

/-- The entries and capabilities that the step brings can come about. -/
def Edit.Admissible : Edit → Prop
  | .insertEntry e => e.Reachable
  | .collect entries => ∀ e ∈ entries, e.Reachable
  | .merge other => other.Reachable
  | .clear | .parse _ | .insertSpan _ _ | .insertText _ => True

/-- The text or the name that the step brings is a good one. -/
def Edit.Sound : Edit → Prop
  | .parse s => ∀ w, Text.IsChunk s.toList w → ∃ name tokens, IsEntry w name tokens
  | .insertSpan name _ => ValidName name
  | .insertText s => ∃ name tokens, IsEntry s.toList name tokens
  | .clear | .insertEntry _ | .collect _ | .merge _ => True

/-- The step leaves nothing of what was there before. -/
def Edit.Replaces : Edit → Prop
  | .clear | .parse _ | .collect _ => True
  | .insertSpan _ _ | .insertEntry _ | .insertText _ | .merge _ => False

/-- The step brings a span of `name` that holds `v`. -/
def Edit.Contributes (name : String) (v : Nat) : Edit → Prop
  | .clear => False
  | .parse s => Describes s.toList name v
  | .insertSpan n s => n = name ∧ v ∈ s
  | .insertEntry e => e.name = name ∧ e.spans.Holds v
  | .insertText s => ∃ tokens, IsEntry s.toList name tokens ∧ Covers tokens v
  | .collect entries => ∃ e ∈ entries, e.name = name ∧ e.spans.Holds v
  | .merge other => other.Lists name v

variable {c d : Capabilities} {edit : Edit}

/-! ### What a step leaves behind -/

/-- The result of a step on `c` that comes to `r`, and leaves `c` if that is a fault. -/
def leaving (c : Capabilities) (r : Except Fault Capabilities) :
    EStateM.Result Fault Capabilities Unit :=
  match r with
  | .ok d => .ok () d
  | .error fault => .error fault c

/-- What is looked at first decides.  If it is refused, the capabilities are as they were. -/
theorem ofExcept_bind_apply {α : Type} (outside : Except Fault α)
    (change : α → EStateM Fault Capabilities Unit) (c : Capabilities) :
    (MonadExcept.ofExcept outside >>= change) c =
      match outside with
      | .ok a => change a c
      | .error fault => .error fault c := by
  cases outside <;> rfl

theorem run_parse (s : String) : (Edit.parse s).run c = c.leaving (Capabilities.parse s) := by
  rw [Edit.run, ofExcept_bind_apply]
  cases Capabilities.parse s <;> rfl

theorem run_insertText (s : String) :
    (Edit.insertText s).run c = c.leaving ((Entry.parse s).map c.insertEntry) := by
  rw [Edit.run, ofExcept_bind_apply]
  cases Entry.parse s <;> rfl

theorem run_insertSpan (name : String) (s : Span) :
    (Edit.insertSpan name s).run c = c.leaving (c.insertSpan name s) := by
  have hentry : Entry.ofSpans name [s] =
      if ValidName name then .ok ⟨name, [s]⟩ else .error (.malformed (.badName name)) := by
    unfold Entry.ofSpans Entry.named
    split <;> rfl
  show (if (c.get? name).isSome then set (c.insertEntry ⟨name, [s]⟩)
    else MonadExcept.ofExcept (Entry.ofSpans name [s]) >>= fun e => set (c.insertEntry e) :
      EStateM Fault Capabilities Unit) c = _
  unfold insertSpan
  by_cases hsome : (c.get? name).isSome
  · simp only [hsome, if_true, true_or]
    rfl
  · rw [if_neg hsome, ofExcept_bind_apply, hentry]
    by_cases hvalid : ValidName name
    · simp only [hvalid, if_true, or_true]
      rfl
    · simp only [hsome, hvalid, if_false]
      rfl

theorem attempt_of_run {r : Except Fault Capabilities} (h : edit.run c = c.leaving r) :
    c.attempt edit = r := by
  rw [attempt, h]
  cases r <;> rfl

/-- **A step that fails leaves what it found**, whichever step it is. -/
theorem run_eq_leaving (c : Capabilities) (edit : Edit) :
    edit.run c = c.leaving (c.attempt edit) := by
  have hrun : ∃ r, edit.run c = c.leaving r := by
    cases edit with
    | parse s => exact ⟨_, run_parse s⟩
    | insertSpan name s => exact ⟨_, run_insertSpan name s⟩
    | insertText s => exact ⟨_, run_insertText s⟩
    | clear | insertEntry e | collect entries | merge other => exact ⟨.ok _, rfl⟩
  obtain ⟨r, hr⟩ := hrun
  rw [attempt_of_run hr, hr]

theorem eq_of_run_error {fault : Fault} (h : edit.run c = .error fault d) : d = c := by
  rw [run_eq_leaving] at h
  cases hattempt : c.attempt edit with
  | ok left =>
      rw [hattempt, leaving] at h
      cases h
  | error cause =>
      rw [hattempt, leaving] at h
      cases h
      rfl

theorem apply_of_attempt (h : c.attempt edit = .ok d) : c.apply edit = d := by
  rw [apply, run_eq_leaving, h]
  rfl

theorem apply_of_refused {fault : Fault} (h : c.attempt edit = .error fault) :
    c.apply edit = c := by
  rw [apply, run_eq_leaving, h]
  rfl

/-! ### Steps that succeed -/

theorem WellFormed.exists_insertSpan_iff (hc : c.WellFormed) {name : String} {s : Span} :
    (∃ d, c.insertSpan name s = .ok d) ↔ ValidName name := by
  unfold insertSpan
  by_cases hvalid : ValidName name
  · simp [hvalid]
  · have hnone : ¬ (c.get? name).isSome = true := by
      intro hsome
      obtain ⟨e, hget⟩ := Option.isSome_iff_exists.mp hsome
      obtain ⟨he, rfl⟩ := mem_of_get? hget
      exact hvalid (hc.entry e he).name
    simp [hvalid, hnone]

/-- A step succeeds when what it brings is good. -/
theorem WellFormed.exists_attempt_iff (hc : c.WellFormed) :
    (∃ d, c.attempt edit = .ok d) ↔ edit.Sound := by
  cases edit with
  | parse s =>
      rw [attempt_of_run (run_parse s)]
      exact exists_parse_iff_isEntry
  | insertSpan name s =>
      rw [attempt_of_run (run_insertSpan name s)]
      exact hc.exists_insertSpan_iff
  | insertText s =>
      rw [attempt_of_run (run_insertText s)]
      simp only [Reading.map_eq_ok_iff, Edit.Sound, Entry.parse]
      refine ⟨fun h => ?_, fun h => ?_⟩
      · obtain ⟨d, e, hread, -⟩ := h
        obtain ⟨tokens, hentry, -⟩ := exists_isEntry hread
        exact ⟨e.name, tokens, hentry⟩
      · obtain ⟨name, tokens, hentry⟩ := h
        obtain ⟨e, hread, -⟩ := hentry.exists_read
        exact ⟨_, e, hread, rfl⟩
  | clear | insertEntry e | collect entries | merge other => exact iff_of_true ⟨_, rfl⟩ trivial

/-- A step that succeeds keeps capabilities well formed. -/
theorem WellFormed.attempt (hc : c.WellFormed) (hedit : edit.Admissible)
    (h : c.attempt edit = .ok d) : d.WellFormed := by
  cases edit with
  | clear =>
      obtain rfl := Except.ok.inj h
      exact WellFormed.empty
  | parse s =>
      rw [attempt_of_run (run_parse s)] at h
      exact wellFormed_of_parse h
  | insertSpan name s =>
      rw [attempt_of_run (run_insertSpan name s)] at h
      exact hc.of_insertSpan h
  | insertEntry e =>
      obtain rfl := Except.ok.inj h
      exact hc.insertEntry hedit.wellFormed
  | insertText s =>
      rw [attempt_of_run (run_insertText s)] at h
      obtain ⟨e, hread, rfl⟩ := Reading.map_eq_ok_iff.mp h
      exact hc.insertEntry (Entry.wellFormed_of_read hread).1
  | collect entries =>
      obtain rfl := Except.ok.inj h
      exact WellFormed.ofEntries fun e he => (hedit e he).wellFormed
  | merge other =>
      obtain rfl := Except.ok.inj h
      exact hc.merge hedit.wellFormed

/-- An entry that is read has what some spelling of it as an entry covers. -/
theorem holds_iff_covers_of_read {w : List Char} {e : Entry} (h : Entry.read w = .ok e)
    {name : String} {v : Nat} :
    (e.name = name ∧ e.spans.Holds v) ↔ ∃ tokens, IsEntry w name tokens ∧ Covers tokens v := by
  refine ⟨fun hv => ?_, fun hv => ?_⟩
  · obtain ⟨rfl, hv⟩ := hv
    obtain ⟨tokens, hentry, hcovers⟩ := exists_isEntry h
    exact ⟨tokens, hentry, (hcovers v).mp hv⟩
  · obtain ⟨tokens, hentry, hv⟩ := hv
    obtain ⟨f, hread, hname, hcovers⟩ := hentry.exists_read
    rw [h, Except.ok.injEq] at hread
    subst hread
    exact ⟨hname, (hcovers v).mpr hv⟩

/-- **A step that succeeds adds what it contributes** to what it keeps. -/
theorem lists_of_attempt (h : c.attempt edit = .ok d) {name : String} {v : Nat} :
    d.Lists name v ↔ edit.Contributes name v ∨ (¬ edit.Replaces ∧ c.Lists name v) := by
  cases edit with
  | clear =>
      obtain rfl := Except.ok.inj h
      simp [Edit.Contributes, Edit.Replaces, not_lists_empty]
  | parse s =>
      rw [attempt_of_run (run_parse s)] at h
      rw [lists_iff_describes h]
      simp [Edit.Contributes, Edit.Replaces]
  | insertSpan n s =>
      rw [attempt_of_run (run_insertSpan n s), insertSpan] at h
      split at h
      · obtain rfl := Except.ok.inj h
        simp [lists_insertEntry, Edit.Contributes, Edit.Replaces, Spans.holds_cons,
          Spans.not_holds_nil, or_comm]
      · simp at h
  | insertEntry e =>
      obtain rfl := Except.ok.inj h
      simp [lists_insertEntry, Edit.Contributes, Edit.Replaces, or_comm]
  | insertText s =>
      rw [attempt_of_run (run_insertText s)] at h
      obtain ⟨e, hread, rfl⟩ := Reading.map_eq_ok_iff.mp h
      rw [lists_insertEntry, holds_iff_covers_of_read hread, or_comm]
      simp [Edit.Contributes, Edit.Replaces]
  | collect entries =>
      obtain rfl := Except.ok.inj h
      simp [lists_ofEntries, Edit.Contributes, Edit.Replaces]
  | merge other =>
      obtain rfl := Except.ok.inj h
      simp [lists_merge, Edit.Contributes, Edit.Replaces, or_comm]

/-! ### Steps that may fail -/

theorem WellFormed.apply (hc : c.WellFormed) (hedit : edit.Admissible) :
    (c.apply edit).WellFormed := by
  cases h : c.attempt edit with
  | error fault => rwa [apply_of_refused h]
  | ok d =>
      rw [apply_of_attempt h]
      exact hc.attempt hedit h

theorem WellFormed.lists_apply (hc : c.WellFormed) {name : String} {v : Nat} :
    (c.apply edit).Lists name v ↔
      (edit.Sound ∧ edit.Contributes name v) ∨
        (¬ (edit.Sound ∧ edit.Replaces) ∧ c.Lists name v) := by
  have hsound : (∃ d, c.attempt edit = .ok d) ↔ edit.Sound := hc.exists_attempt_iff
  cases h : c.attempt edit with
  | error fault =>
      have hnot : ¬ edit.Sound := by
        rw [← hsound, h]
        simp
      rw [apply_of_refused h]
      simp [hnot]
  | ok d =>
      have hgood : edit.Sound := hsound.mp ⟨d, h⟩
      rw [apply_of_attempt h, lists_of_attempt h]
      simp [hgood]

/-! ### Histories -/

/-- Some successful step of the history brought a span of `name` that holds `v`, and no
successful step behind it replaced everything. -/
def Contributed (history : List Edit) (name : String) (v : Nat) : Prop :=
  ∃ before edit after, history = before ++ edit :: after ∧ edit.Sound ∧
    edit.Contributes name v ∧ ∀ later ∈ after, later.Sound → ¬ later.Replaces

theorem build_concat (history : List Edit) (edit : Edit) :
    build (history ++ [edit]) = (build history).apply edit := by
  simp [build]

theorem not_contributed_nil (name : String) (v : Nat) : ¬ Contributed [] name v := by
  intro h
  obtain ⟨before, edit, after, hsplit, -⟩ := h
  simp at hsplit

theorem contributed_concat {history : List Edit} {edit : Edit} {name : String} {v : Nat} :
    Contributed (history ++ [edit]) name v ↔
      (edit.Sound ∧ edit.Contributes name v) ∨
      (¬ (edit.Sound ∧ edit.Replaces) ∧ Contributed history name v) := by
  refine ⟨fun h => ?_, fun h => ?_⟩
  · obtain ⟨before, e, after, hsplit, hsound, hv, hafter⟩ := h
    -- The step that contributed is the last one, or stands in the history before it.
    rcases List.eq_nil_or_concat after with rfl | ⟨rest, last, rfl⟩
    · obtain ⟨-, hlast⟩ := List.append_inj' hsplit rfl
      obtain rfl := List.singleton_inj.mp hlast
      exact Or.inl ⟨hsound, hv⟩
    · rw [List.concat_eq_append] at hsplit hafter
      rw [← List.cons_append, ← List.append_assoc] at hsplit
      obtain ⟨hhistory, hlast⟩ := List.append_inj' hsplit rfl
      obtain rfl := List.singleton_inj.mp hlast
      refine Or.inr ⟨fun hreplaces => hafter edit (by simp) hreplaces.1 hreplaces.2, ?_⟩
      exact ⟨before, e, rest, hhistory, hsound, hv, fun later hlater =>
        hafter later (List.mem_append_left _ hlater)⟩
  · rcases h with ⟨hsound, hv⟩ | ⟨hkeeps, before, e, after, hsplit, hsound, hv, hafter⟩
    · exact ⟨history, edit, [], rfl, hsound, hv, by simp⟩
    · refine ⟨before, e, after ++ [edit], by rw [hsplit]; simp, hsound, hv, fun later hlater => ?_⟩
      rcases List.mem_append.mp hlater with hlater | hlater
      · exact hafter later hlater
      · obtain rfl := List.mem_singleton.mp hlater
        exact fun hs hr => hkeeps ⟨hs, hr⟩

theorem wellFormed_build {history : List Edit} (h : ∀ edit ∈ history, edit.Admissible) :
    (build history).WellFormed := by
  induction history using List.reverseRecOn with
  | nil => exact WellFormed.empty
  | append_singleton history edit ih =>
      rw [build_concat]
      exact (ih fun e he => h e (by simp [he])).apply (h edit (by simp))

/-- What is listed after a history is what was contributed to it. -/
theorem lists_build_iff {history : List Edit} (h : ∀ edit ∈ history, edit.Admissible)
    {name : String} {v : Nat} : (build history).Lists name v ↔ Contributed history name v := by
  induction history using List.reverseRecOn with
  | nil => exact iff_of_false (not_lists_empty name v) (not_contributed_nil name v)
  | append_singleton history edit ih =>
      have hhistory : ∀ e ∈ history, e.Admissible := fun e he => h e (by simp [he])
      rw [build_concat, (wellFormed_build hhistory).lists_apply, contributed_concat, ih hhistory]

/-- **After every history the capabilities are well formed and support what was contributed.**
The entry found under a name is the one entry of that name, a step succeeds exactly when what
it brings is good, and one that fails leaves what it found, so that the history goes on as if it
had not been tried. -/
theorem build_invariant {history : List Edit} (h : ∀ edit ∈ history, edit.Admissible) :
    (build history).WellFormed ∧
    (∀ name e, (build history).get? name = some e ↔
      e ∈ (build history).entries ∧ e.name = name) ∧
    (∀ name v, (build history).supports name v = true ↔ Contributed history name v) ∧
    (∀ edit, (∃ d, (build history).attempt edit = .ok d) ↔ edit.Sound) ∧
    (∀ (edit : Edit) fault left,
      edit.run (build history) = .error fault left → left = build history) ∧
    (∀ edit fault, (build history).attempt edit = .error fault →
      build (history ++ [edit]) = build history) := by
  have hwf := wellFormed_build h
  refine ⟨hwf, fun name e => ⟨mem_of_get?, fun he => ?_⟩, fun name v => ?_, fun edit => ?_,
    fun edit fault left hfault => ?_, fun edit fault hfault => ?_⟩
  · obtain ⟨he, rfl⟩ := he
    exact hwf.get?_eq_some he
  · rw [hwf.supports_iff_lists, lists_build_iff h]
  · exact hwf.exists_attempt_iff
  · exact eq_of_run_error hfault
  · rw [build_concat, apply_of_refused hfault]

/-- A history with a bad name, an inverted span, an entry without versions and a replacement. -/
theorem build_invariant_with_failures :
    ∃ history : List Edit, history =
        [.insertSpan "Link" ⟨1, 2, by decide, by decide⟩,
          .insertSpan "a-b" ⟨1, 1, by decide, by decide⟩, .parse "Cons=1 Link=5",
          .parse "Link=3-1", .insertEntry ⟨"Desc", []⟩, .insertText "Link=6,9",
          .merge ⟨[⟨"Relay", [⟨2, 2, by decide, by decide⟩]⟩]⟩] ∧
      (∀ edit ∈ history, edit.Admissible) ∧ (build history).WellFormed ∧
      (build history).encode = "Cons=1 Link=5-6,9 Relay=2" ∧
      Contributed history "Link" 6 ∧ ¬ Contributed history "Link" 1 := by
  have hrelay : Capabilities.parse "Relay=2" =
      .ok ⟨[⟨"Relay", [⟨2, 2, by decide, by decide⟩]⟩]⟩ := by
    decide +kernel
  have hdesc : Entry.named "Desc" = .ok ⟨"Desc", []⟩ := by
    decide +kernel
  refine ⟨_, rfl, (and_iff_left_of_imp fun hadmissible => ?_).mpr ?_⟩
  · obtain ⟨hwf, -, hsupports, -⟩ := build_invariant hadmissible
    refine ⟨hwf, by decide +kernel, (hsupports "Link" 6).mp (by decide +kernel), fun h => ?_⟩
    exact absurd ((hsupports "Link" 1).mpr h) (by decide +kernel)
  · intro edit hedit
    simp only [List.mem_cons, List.not_mem_nil, or_false] at hedit
    rcases hedit with rfl | rfl | rfl | rfl | rfl | rfl | rfl
    · trivial
    · trivial
    · trivial
    · trivial
    · exact .named hdesc
    · trivial
    · exact .parse hrelay

end Subprotocol.Capabilities

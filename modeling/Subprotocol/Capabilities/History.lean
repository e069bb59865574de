/-
Histories: how a set of capabilities comes about.

A participant builds its capabilities in steps, and a step can fail when it brings
text or a name from outside.  A step leaves capabilities behind whether it succeeds or
not.  Those that bring something from outside look at it before they change anything, so
that a step that fails leaves what it found.

Capabilities that some history leads to are well formed, however the steps are mixed.
-/
import Subprotocol.Listing.Reader

namespace Subprotocol.Capabilities

/-- One step of a history. -/
inductive Edit
  | clear
  | parse (s : String)
  | insertSpan (name : String) (s : Span)
  | insertEntry (e : Entry)
  | insertText (s : String)
  | collect (entries : List Entry)
  | merge (other : Capabilities)

/-- The step as a program over the capabilities.  A fault comes with the capabilities as
they are when it occurs. -/
def Edit.run : Edit → EStateM Listing.Fault Capabilities Unit
  | .clear => set empty
  | .parse s => do
    let c ← MonadExcept.ofExcept (Capabilities.parse s)
    set c
  | .insertSpan name s => do
    let c ← get
    -- The name of an entry that is there was looked at when the entry came in.
    if (c.get? name).isSome then set (c.insertEntry ⟨name, [s]⟩)
    else
      let e ← MonadExcept.ofExcept (Entry.ofSpans name [s])
      set (c.insertEntry e)
  | .insertEntry e => modify (·.insertEntry e)
  | .insertText s => do
    let e ← MonadExcept.ofExcept (Entry.parse s)
    modify (·.insertEntry e)
  | .collect entries => set (ofEntries entries)
  | .merge other => modify (·.merge other)

/-- The outcome of a step: the new capabilities, or what is wrong. -/
def attempt (c : Capabilities) (edit : Edit) : Except Listing.Fault Capabilities :=
  match edit.run c with
  | .ok _ d => .ok d
  | .error fault _ => .error fault

/-- The capabilities that a step leaves behind, also if it fails. -/
def apply (c : Capabilities) (edit : Edit) : Capabilities :=
  match edit.run c with
  | .ok _ d => d
  | .error _ d => d

/-- The capabilities after a history that starts from nothing. -/
def build (history : List Edit) : Capabilities := history.foldl apply empty

end Subprotocol.Capabilities

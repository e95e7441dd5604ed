import ScriptTree.Grammar.Items
import ScriptTree.Proofs.Parser.Frame

/-!
Speculation leaves nothing behind. Going back to an earlier state cuts events and reports back to
their old numbers and restores nothing else of them, so it undoes a reading only because no reading
ever touches what was there before it.
-/

namespace ScriptTree

namespace Grammar

open ParseState

def read (budget : Nat) (phrase : Clause) (state : ParseState) : Outcome × ParseState :=
  phrase.run (Phrase.runRule grammar budget) state

theorem frames_read (budget : Nat) (phrase : Clause) : Phrase.Frames (read budget phrase) :=
  Phrase.Frames.phrase (Phrase.frames_runRule grammar budget) phrase

/-- Every phrase of the grammar, from every state, keeps the events and the reports before it as
they are, in front of what it adds, and comes back to the depth that it started from. So going back
to the state before a phrase gives that state, but that a broken rule of use stays noted. Hence a
phrase goes on behind a probe as if the probe had not been run, and behind an attempt that fails as
if there had been no attempt. -/
theorem speculation_leaves_nothing (budget : Nat) (phrase : Clause) (state : ParseState) :
    state.events.toList <+: (read budget phrase state).2.events.toList ∧
    state.diagnostics.toList <+: (read budget phrase state).2.diagnostics.toList ∧
    (read budget phrase state).2.depth = state.depth ∧
    (read budget phrase state).2.rewind state.checkpoint =
      { state with misused := (read budget phrase state).2.misused } ∧
    (∀ yes no, read budget (.look phrase yes no) state =
      read budget
        (if (read budget phrase state).2.isClean state.checkpoint (read budget phrase state).1
          then yes else no)
        { state with misused := (read budget phrase state).2.misused }) ∧
    (∀ yes no, read budget (.attempt phrase yes no) state =
      if (read budget phrase state).2.isClean state.checkpoint (read budget phrase state).1
        then read budget yes (read budget phrase state).2
        else read budget no { state with misused := (read budget phrase state).2.misused }) := by
  have hextends : state.Extends (read budget phrase state).2 := (frames_read budget phrase state).1
  have hback := hextends.rewind
  refine ⟨hextends.events, hextends.diagnostics, hextends.depth, hback, ?_, ?_⟩
  · intro yes no
    have hlook : read budget (.look phrase yes no) state =
        if (read budget phrase state).2.isClean state.checkpoint (read budget phrase state).1
          then read budget yes ((read budget phrase state).2.rewind state.checkpoint)
          else read budget no ((read budget phrase state).2.rewind state.checkpoint) := rfl
    rw [hlook, hback]
    split <;> rfl
  · intro yes no
    have hattempt : read budget (.attempt phrase yes no) state =
        if (read budget phrase state).2.isClean state.checkpoint (read budget phrase state).1
          then read budget yes (read budget phrase state).2
          else read budget no ((read budget phrase state).2.rewind state.checkpoint) := rfl
    rw [hattempt, hback]
    rfl

end Grammar

end ScriptTree

import ScriptTree.Proofs.Tiling

/-!
Reading the lookahead again. What a lexer holds depends on where its lookahead starts, on the mode
in which that was read last and on the kind of the token before it: nothing is left over from an
earlier reading, be it layout or an error. So of several readings in a row only the last one counts,
whatever was done with the lexer before and is done with it afterwards. Reading the lookahead once
more in the mode that it had takes them all back.
-/

namespace ScriptTree

namespace Lexer

variable {lexer : Lexer}

theorem Placed.relex_relex (h : lexer.Placed) (mode last : LexMode) :
    (lexer.relex mode).relex last = lexer.relex last := by
  rw [(h.relex mode).relex_eq, h.relex_eq mode, h.relex_eq last]
  rfl

/-- Of readings in a row only the last one counts. -/
theorem Placed.foldl_relex (h : lexer.Placed) (modes : List LexMode) (last : LexMode) :
    (modes.foldl Lexer.relex lexer).relex last = lexer.relex last := by
  induction modes generalizing lexer with
  | nil => rfl
  | cons mode rest ih =>
    calc (rest.foldl Lexer.relex (lexer.relex mode)).relex last
      _ = (lexer.relex mode).relex last := ih (h.relex mode)
      _ = lexer.relex last := h.relex_relex mode last

theorem relex_self (lexer : Lexer) : lexer.relex lexer.mode = lexer :=
  if_pos rfl

namespace History

theorem run_append (history : History) (uses later : List Use) :
    history.run (uses ++ later) = (history.run uses).run later :=
  List.foldl_append

/-- Readings in a row change the lexer in use and nothing else. -/
theorem run_relex (history : History) (modes : List LexMode) :
    history.run (modes.map .relex) =
      { history with current :=
        { history.current with lexer := modes.foldl Lexer.relex history.current.lexer } } := by
  induction modes generalizing history with
  | nil => rfl
  | cons mode rest ih => exact ih (history.step (.relex mode))

/-- The lexer in use holds what there is to read at its place. -/
theorem Reads.placed {text : String} {history : History} (h : history.Reads text) :
    history.current.lexer.Placed :=
  (h history.current List.mem_cons_self).placed (place_placed _ _ _)

/-- Readings in front of another one make no difference to what comes of it. -/
theorem Reads.step_relex {text : String} {history : History} (h : history.Reads text)
    (modes : List LexMode) (last : LexMode) :
    (history.run (modes.map .relex)).step (.relex last) = history.step (.relex last) := by
  rw [run_relex]
  exact congrArg (fun lexer => History.mk ⟨lexer, history.current.taken⟩ history.clones)
    (h.placed.foldl_relex modes last)

/-- Reading the lookahead in the mode that it has changes nothing. -/
theorem step_relex_self (history : History) :
    history.step (.relex history.current.lexer.mode) = history :=
  congrArg (fun lexer => History.mk ⟨lexer, history.current.taken⟩ history.clones)
    (relex_self history.current.lexer)

end History

/-- However a lexer has been used and is used later, of readings in a row only the last one counts.
One more reading in the mode that the lookahead had, such as the ordinary reading behind a token
that was taken, takes back all of them. -/
theorem history_relexed_last (text : String) (uses : List Use) (modes : List LexMode)
    (last : LexMode) (later : List Use) :
    ((History.ofText text).run uses).run (modes.map .relex ++ .relex last :: later) =
        ((History.ofText text).run uses).run (.relex last :: later) ∧
      ((History.ofText text).run uses).run
          (modes.map .relex ++ .relex
            ((History.ofText text).run uses).current.lexer.mode :: later) =
        ((History.ofText text).run uses).run later ∧
      ((History.ofText text).run uses).run
          (.next :: (modes.map .relex ++ .relex .plain :: later)) =
        ((History.ofText text).run uses).run (.next :: later) := by
  have hlast {history : History} (h : history.Reads text) (last : LexMode) :
      history.run (modes.map .relex ++ .relex last :: later) =
        (history.step (.relex last)).run later := by
    rw [History.run_append, ← h.step_relex modes last]
    rfl
  have hback {history : History} (h : history.Reads text) :
      history.run (modes.map .relex ++ .relex history.current.lexer.mode :: later) =
        history.run later := by
    rw [hlast h, History.step_relex_self]
  have hreads := History.reads_run text uses
  exact ⟨hlast hreads last, hback hreads, hback (hreads.step .next)⟩

/-- A `>>=` of which the lookahead is split, read as a sprite and as frames, and then whole again.
-/
example : let uses := [.next, .relex .angle, .relex .sprite, .relex .frames, .relex .plain, .next]
    ((History.ofText "a>>=b").run uses).current.taken.map (·.text) = ["a", ">>="] := by
  decide +kernel

end Lexer

end ScriptTree

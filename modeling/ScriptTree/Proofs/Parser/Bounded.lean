import Mathlib.Logic.Relation
import ScriptTree.Parser.Bounded
import ScriptTree.Proofs.Parser.Calls

/-!
Runs with marks of 32 bits are runs: wherever there is one, it is the run without bounds. There is
none only if a phrase is started on the way in a state of `2 ^ 32` events or more.
-/

namespace ScriptTree

def Yields {α : Type} (found : Option α) (result : α) (reason : Prop) : Prop :=
  found = some result ∨ found = none ∧ reason

namespace Yields

variable {α β : Type} {found : Option α} {result : α} {reason reason' : Prop}

theorem some (result : α) (reason : Prop) : Yields (some result) result reason :=
  Or.inl rfl

theorem mono (h : Yields found result reason) (himp : reason → reason') :
    Yields found result reason' :=
  h.imp_right fun ⟨hnone, hreason⟩ => ⟨hnone, himp hreason⟩

theorem bind {next : α → Option β} {last : β} (h : Yields found result reason)
    (hnext : Yields (next result) last reason) : Yields (found >>= next) last reason := by
  rcases h with rfl | ⟨rfl, hreason⟩
  · exact hnext
  · exact Or.inr ⟨rfl, hreason⟩

end Yields

open Phrase ParseState

variable {Rule : Type}

namespace ParseState

theorem hasMark_eq_false_iff {state : ParseState} :
    state.hasMark = false ↔ UInt32.size ≤ state.events.size := by
  rw [hasMark, decide_eq_false_iff_not, Nat.not_lt]
  rfl

theorem yields_openNode? (state : ParseState) :
    Yields state.openNode? state.openNode (state.hasMark = false) := by
  rw [openNode?]
  split
  · exact .some _ _
  · next h => exact Or.inr ⟨rfl, Bool.eq_false_iff.mpr h⟩

/-- A node begins in front of another one unless it has no mark. -/
theorem yields_precede? (state : ParseState) (inner : Nat) :
    Yields (state.precede? inner) (state.precede inner)
      ((state.precede inner).hasMark = false) := by
  rw [precede?]
  split
  · exact .some _ _
  · next h =>
    have hsize := hasMark_eq_false_iff.mp (Bool.eq_false_iff.mpr h)
    refine Or.inr ⟨rfl, hasMark_eq_false_iff.mpr ?_⟩
    simp only [precede, require, Events.precede, Events.openNode, Array.size_push,
      Array.size_modify]
    omega

/-- The error node begins where the element began. -/
theorem yields_skipFailed? (state start : ParseState) :
    Yields (state.skipFailed? start.checkpoint) (state.skipFailed start.checkpoint)
      (start.hasMark = false) := by
  rw [skipFailed?]
  split
  · exact .some _ _
  · next h =>
    have hsize := hasMark_eq_false_iff.mp (Bool.eq_false_iff.mpr h)
    refine Or.inr ⟨rfl, hasMark_eq_false_iff.mpr ?_⟩
    simp only [rewind, checkpoint, mark, Array.size_shrink] at hsize
    omega

end ParseState

namespace CallFrame

def Lacks (grammar : Rule → Phrase Rule) (frame : CallFrame Rule) : Prop :=
  ∃ last, Relation.ReflTransGen (fun outer inner => inner ∈ outer.starts grammar) frame last ∧
    last.state.hasMark = false

def Answers (grammar : Rule → Phrase Rule) (frame : CallFrame Rule) : Prop :=
  Yields (frame.phrase.run? (runRule? grammar frame.budget) frame.state)
    (frame.phrase.run (runRule grammar frame.budget) frame.state) (frame.Lacks grammar)

variable {grammar : Rule → Phrase Rule} {frame inner : CallFrame Rule}

theorem Lacks.here (h : frame.state.hasMark = false) : frame.Lacks grammar :=
  ⟨frame, .refl, h⟩

theorem Lacks.of_start (h : inner.Lacks grammar) (hstart : inner ∈ frame.starts grammar) :
    frame.Lacks grammar := by
  obtain ⟨last, hreaches, hmark⟩ := h
  exact ⟨last, .head hstart hreaches, hmark⟩

/-- A part of a phrase answers for the whole. -/
theorem Answers.of_start (h : inner.Answers grammar) (hstart : inner ∈ frame.starts grammar) :
    Yields (inner.phrase.run? (runRule? grammar inner.budget) inner.state)
      (inner.phrase.run (runRule grammar inner.budget) inner.state) (frame.Lacks grammar) :=
  h.mono fun hlacks => hlacks.of_start hstart

end CallFrame

namespace Phrase

open CallFrame

variable {grammar : Rule → Phrase Rule} {budget : Nat} {test : ParseState → Bool}
  {field : Kind → Field} {body : Phrase Rule} {reason : Prop}

/-- By induction on the rounds: the loop is refused where one of its rounds is. -/
theorem yields_loopWhile? (h : ∀ state, Answers grammar ⟨budget, body, state⟩) {state : ParseState}
    {limit : Nat}
    (hreason : ∀ start ∈ loopStates test (body.run (runRule grammar budget)) state limit,
      Lacks grammar ⟨budget, body, start⟩ → reason) :
    Yields (loopWhile? test (body.run? (runRule? grammar budget)) state limit)
      (loopWhile test (body.run (runRule grammar budget)) state limit) reason := by
  induction limit generalizing state with
  | zero => exact .some _ _
  | succ limit ih =>
    rw [loopWhile?, loopWhile]
    rw [loopStates] at hreason
    split
    · next ht =>
      rw [if_pos ht] at hreason
      refine ((h state).mono (hreason _ List.mem_cons_self)).bind ?_
      dsimp only
      generalize body.run (runRule grammar budget) state = result at hreason
      obtain ⟨outcome, after⟩ := result
      cases outcome with
      | failed => exact .some _ _
      | _ => exact ih fun start hstart => hreason start (List.mem_cons_of_mem _ hstart)
    · exact .some _ _

/-- By induction on the rounds: the chain is refused where one of its rounds is, or where a node has
no mark. -/
theorem yields_growChain? (h : ∀ state, Answers grammar ⟨budget, body, state⟩) {mark : Nat}
    {kind : Kind} {state : ParseState} {limit : Nat}
    (hreason : ∀ start ∈ chainStates test field (body.run (runRule grammar budget)) mark kind state
      limit, Lacks grammar ⟨budget, body, start⟩ → reason) :
    Yields (growChain? test field (body.run? (runRule? grammar budget)) mark kind state limit)
      (growChain test field (body.run (runRule grammar budget)) mark kind state limit) reason := by
  induction limit generalizing mark kind state with
  | zero => exact .some _ _
  | succ limit ih =>
    rw [growChain?, growChain]
    rw [chainStates] at hreason
    split
    · next ht =>
      rw [if_pos ht] at hreason
      dsimp only at hreason ⊢
      generalize state.setField (.node mark kind) (field state.kind) = filled at hreason
      -- the round begins behind the event that may have no mark
      have hstart := hreason _ List.mem_cons_self
      refine ((yields_precede? filled mark).mono fun hmark => hstart (.here hmark)).bind ?_
      refine ((h (filled.precede mark)).mono hstart).bind ?_
      dsimp only
      generalize body.run (runRule grammar budget) (filled.precede mark) = result at hreason
      obtain ⟨outcome, after⟩ := result
      dsimp only at hreason ⊢
      generalize after.endNode filled.mark outcome = ended at hreason
      obtain ⟨outcome', after'⟩ := ended
      cases outcome' with
      | node outer kind' =>
        exact ih fun start hstart => hreason start (List.mem_cons_of_mem _ hstart)
      | _ => exact .some _ _
    · exact .some _ _

/-- Every phrase answers, if all rules do. -/
theorem answers_phrase (hrules : ∀ rule state, Answers grammar ⟨budget, .call rule, state⟩)
    (phrase : Phrase Rule) (state : ParseState) : Answers grammar ⟨budget, phrase, state⟩ := by
  induction phrase generalizing state with
  | seq first second ih ih' =>
    exact ((ih state).of_start (by simp [starts])).bind ((ih' _).of_start (by simp [starts]))
  | both first second ih ih' =>
    refine ((ih state).of_start (by simp [starts])).bind ?_
    rw [Phrase.run]
    dsimp only
    generalize hfirst : first.run (runRule grammar budget) state = result
    obtain ⟨outcome, after⟩ := result
    cases outcome with
    | failed => exact .some _ _
    | _ => exact (ih' after).of_start (by simp [starts, hfirst])
  | branch test yes no ih ih' =>
    rw [Answers, Phrase.run?, Phrase.run]
    dsimp only
    split
    · next ht => exact (ih state).of_start (by simp [starts, ht])
    · next ht => exact (ih' state).of_start (by simp [starts, ht])
  | loop test body ih =>
    refine Yields.bind (yields_loopWhile? ih fun start hstart hlacks => ?_) (.some _ _)
    exact hlacks.of_start (List.mem_map_of_mem hstart)
  | node body ih =>
    -- a node that begins here is refused where its mark would not have 32 bits
    refine ((yields_openNode? state).mono fun hmark => Lacks.here hmark).bind ?_
    exact ((ih state.openNode).of_start (by simp [starts])).bind (.some _ _)
  | slot field body ih => exact ((ih state).of_start (by simp [starts])).bind (.some _ _)
  | chain head test field body ih ih' =>
    refine ((ih state).of_start (by simp [starts])).bind ?_
    rw [Phrase.run]
    dsimp only
    generalize hhead : head.run (runRule grammar budget) state = result
    obtain ⟨outcome, after⟩ := result
    cases outcome with
    | node mark kind =>
      refine yields_growChain? ih' fun start hstart hlacks => ?_
      refine hlacks.of_start ?_
      simp only [starts, hhead]
      exact List.mem_cons_of_mem _ (List.mem_map_of_mem hstart)
    | _ => exact .some _ _
  | look probe yes no ih ih' ih'' =>
    refine ((ih state).of_start (by simp [starts])).bind ?_
    rw [Phrase.run]
    dsimp only
    generalize hprobe : probe.run (runRule grammar budget) state = result
    obtain ⟨outcome, after⟩ := result
    dsimp only
    split
    · next hc => exact (ih' (after.rewind state.checkpoint)).of_start (by simp [starts, hprobe, hc])
    · next hc =>
        exact (ih'' (after.rewind state.checkpoint)).of_start (by simp [starts, hprobe, hc])
  | attempt body yes no ih ih' ih'' =>
    refine ((ih state).of_start (by simp [starts])).bind ?_
    rw [Phrase.run]
    dsimp only
    generalize hbody : body.run (runRule grammar budget) state = result
    obtain ⟨outcome, after⟩ := result
    dsimp only
    split
    · next hc => exact (ih' after).of_start (by simp [starts, hbody, hc])
    · next hc => exact (ih'' (after.rewind state.checkpoint)).of_start (by simp [starts, hbody, hc])
  | blame shape reading ih ih' =>
    refine ((ih state).of_start (by simp [starts])).bind ?_
    exact ((ih' ((shape.run (runRule grammar budget) state).2.rewind state.checkpoint)).of_start
      (by simp [starts])).bind (.some _ _)
  | recover element ih =>
    refine ((ih state).of_start (by simp [starts])).bind ?_
    rw [Phrase.run]
    dsimp only
    split
    · exact .some _ _
    · -- an error node begins like any other one
      exact ((yields_skipFailed? _ state).mono fun hmark => Lacks.here hmark).bind (.some _ _)
  | absorb body ih => exact ((ih state).of_start (by simp [starts])).bind (.some _ _)
  | nested body ih =>
    rw [Answers, Phrase.run?, Phrase.run]
    dsimp only
    split
    · exact .some _ _
    · next hl =>
      exact ((ih { state with depth := state.depth + 1 }).of_start (by simp [starts, hl])).bind
        (.some _ _)
  | call rule => exact hrules rule state
  | _ => exact .some _ _

/-- Every rule answers, whatever the budget. -/
theorem answers_call (grammar : Rule → Phrase Rule) (budget : Nat) (rule : Rule)
    (state : ParseState) : Answers grammar ⟨budget, .call rule, state⟩ := by
  induction budget generalizing rule state with
  | zero => exact .some _ _
  | succ budget ih => exact (answers_phrase ih (grammar rule) state).of_start (by simp [starts])

end Phrase

/-- Every phrase has its run with marks of 32 bits, or a phrase that is in progress on the way is
started in a state of `2 ^ 32` events or more. -/
theorem CallFrame.answers (grammar : Rule → Phrase Rule) (frame : CallFrame Rule) :
    frame.Answers grammar :=
  answers_phrase (answers_call grammar frame.budget) frame.phrase frame.state

end ScriptTree

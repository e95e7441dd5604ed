import ScriptTree.Proofs.Parser.Frame
import ScriptTree.Proofs.Parser.Uniform

/-!
Frank phrases: those of whose reports every one is a failure. A frank phrase that has no failure has
nothing to report. What closes a body, recovers from failures or takes them back is not frank.
-/

namespace ScriptTree

namespace ParseState

def IsFrank (state : ParseState) : Prop :=
  state.diagnostics.size = state.failures

theorem IsFrank.take {state : ParseState} (h : state.IsFrank) (field : Option Field) :
    (state.take field).IsFrank := by
  unfold ParseState.take
  split
  · exact h
  · exact h

theorem IsFrank.failWith {state : ParseState} (h : state.IsFrank) (kind : DiagnosticKind)
    (message : String) : (state.failWith kind message).IsFrank := by
  rw [IsFrank, ParseState.failWith]
  simp only [report, Array.size_push]
  rw [h]

theorem IsFrank.fail {state : ParseState} (h : state.IsFrank) (message : String) :
    (state.fail message).IsFrank := by
  unfold ParseState.fail
  split
  · exact h.failWith _ _
  · exact h.failWith _ _

theorem IsFrank.setField {state : ParseState} (h : state.IsFrank) (outcome : Outcome)
    (field : Field) : (state.setField outcome field).IsFrank := by
  cases outcome <;> exact h

theorem IsFrank.endNode {state : ParseState} (h : state.IsFrank) (mark : Nat) (outcome : Outcome) :
    (state.endNode mark outcome).2.IsFrank := by
  cases outcome <;> exact h

end ParseState

namespace Phrase

open ParseState

variable {Rule : Type}

def isFrank (among : Rule → Bool) : Phrase Rule → Bool
  | .seq first second | .both first second => first.isFrank among && second.isFrank among
  | .branch _ yes no => yes.isFrank among && no.isFrank among
  | .chain head _ _ body => head.isFrank among && body.isFrank among
  | .loop _ body | .node body | .slot _ body | .nested body => body.isFrank among
  | .call rule => among rule
  | .close _ | .look _ _ _ | .attempt _ _ _ | .blame _ _ | .recover _ | .absorb _ => false
  | _ => true

def Frank (run : ParseState → Outcome × ParseState) : Prop :=
  ∀ state : ParseState, state.IsFrank → (run state).2.IsFrank

theorem Frank.loop {test : ParseState → Bool} {step : ParseState → Outcome × ParseState}
    (h : Frank step) {state : ParseState} (hs : state.IsFrank) (limit : Nat) :
    (loopWhile test step state limit).IsFrank := by
  induction limit generalizing state with
  | zero => exact hs
  | succ limit ih =>
    have hstep := h state hs
    rw [loopWhile]
    split
    · split
      · next after he =>
        rw [he] at hstep
        exact hstep
      · next after _ he =>
        rw [he] at hstep
        exact ih hstep
    · exact hs

theorem Frank.chain {test : ParseState → Bool} {field : Kind → Field}
    {step : ParseState → Outcome × ParseState} (h : Frank step) {state : ParseState}
    (hs : state.IsFrank) (mark : Nat) (kind : Kind) (limit : Nat) :
    (growChain test field step mark kind state limit).2.IsFrank := by
  induction limit generalizing state mark kind with
  | zero => exact hs
  | succ limit ih =>
    rw [growChain]
    split
    · have hstep := h ((state.setField (.node mark kind) (field state.kind)).precede mark) hs
      have hend := hstep.endNode (state.setField (.node mark kind) (field state.kind)).mark
        (step ((state.setField (.node mark kind) (field state.kind)).precede mark)).1
      dsimp only
      split
      · next outer kind' after he =>
        rw [he] at hend
        exact ih hend outer kind'
      · next after _ he =>
        rw [he] at hend
        exact hend
    · exact hs

/-- A frank phrase reports failures only. -/
theorem Frank.phrase {among : Rule → Bool} {runRule : Rule → ParseState → Outcome × ParseState}
    (hrules : ∀ rule, among rule = true → Frank (runRule rule)) {phrase : Phrase Rule}
    (h : phrase.isFrank among = true) : Frank (phrase.run runRule) := by
  induction phrase with
  | take field => exact fun state hs => hs.take field
  | expect kind field =>
    intro state hs
    simp only [run]
    split
    · exact hs.take field
    · exact hs.fail _
  | missing what => exact fun state hs => hs.fail _
  | refuse message => exact fun state hs => hs.fail _
  | seq first second ih ih' =>
    simp only [isFrank, Bool.and_eq_true] at h
    exact fun state hs => ih' h.2 _ (ih h.1 state hs)
  | both first second ih ih' =>
    simp only [isFrank, Bool.and_eq_true] at h
    intro state hs
    have hfirst := ih h.1 state hs
    simp only [run]
    split
    · next after he =>
      rw [he] at hfirst
      exact hfirst
    · next after _ he =>
      rw [he] at hfirst
      exact ih' h.2 after hfirst
  | branch test yes no ih ih' =>
    simp only [isFrank, Bool.and_eq_true] at h
    intro state hs
    simp only [run]
    split
    · exact ih h.1 state hs
    · exact ih' h.2 state hs
  | loop test body ih => exact fun state hs => (ih h).loop hs _
  | node body ih => exact fun state hs => (ih h state.openNode hs).endNode _ _
  | slot field body ih => exact fun state hs => (ih h state hs).setField _ _
  | chain head test field body ih ih' =>
    simp only [isFrank, Bool.and_eq_true] at h
    intro state hs
    have hhead := ih h.1 state hs
    simp only [run]
    split
    · next mark kind after he =>
      rw [he] at hhead
      exact (ih' h.2).chain hhead mark kind _
    · next after _ he =>
      rw [he] at hhead
      exact hhead
  | nested body ih =>
    intro state hs
    simp only [run]
    split
    · exact hs.failWith _ _
    · exact ih h { state with depth := state.depth + 1 } hs
  | call rule => exact hrules rule h
  | done | reject | demand | relex | choose => exact fun state hs => hs
  | _ => cases h

/-- Rules whose phrases are frank, if the rules are, report failures only. -/
theorem frank_runRule {among : Rule → Bool} {grammar : Rule → Phrase Rule}
    (h : ∀ rule, among rule = true → (grammar rule).isFrank among = true) (budget : Nat)
    {rule : Rule} (hrule : among rule = true) : Frank (runRule grammar budget rule) := by
  induction budget generalizing rule with
  | zero => exact fun state hs => hs
  | succ budget ih => exact Frank.phrase (fun rule hrule => ih hrule) (h rule hrule)

end Phrase

def Event.held? : Event → Option Token
  | .token held _ => some held
  | _ => none

theorem filterMap_held_modify (events : List Event) (mark : Nat) {f : Event → Event}
    (hf : ∀ event, (f event).held? = event.held?) :
    (events.modify mark f).filterMap Event.held? = events.filterMap Event.held? := by
  induction events generalizing mark with
  | nil => simp
  | cons event rest ih =>
    cases mark with
    | zero => simp [List.filterMap_cons, hf]
    | succ mark => simp [List.filterMap_cons, ih]

namespace ParseState

def heldTokens (state : ParseState) : List Token :=
  state.events.toList.filterMap Event.held?

/-- From a state on, these tokens are taken, and nothing is reported. The depth is what it was. -/
structure Takes (state : ParseState) (tokens : List Token) (after : ParseState) : Prop
    extends state.Extends after where
  held : after.heldTokens = state.heldTokens ++ tokens
  reports : after.diagnostics = state.diagnostics
  failures : after.failures = state.failures

namespace Takes

variable {state middle after : ParseState} {tokens tokens' : List Token}

theorem trans (h : state.Takes tokens middle) (h' : middle.Takes tokens' after) :
    state.Takes (tokens ++ tokens') after :=
  ⟨h.toExtends.trans h'.toExtends, by rw [h'.held, h.held, List.append_assoc],
    h'.reports.trans h.reports, h'.failures.trans h.failures⟩

theorem openNode (state : ParseState) : state.Takes [] state.openNode :=
  ⟨.openNode state,
    by simp [ParseState.heldTokens, ParseState.openNode, Events.openNode, Event.blank,
    Event.held?], rfl, rfl⟩

theorem take (h : state.kind ≠ .eof) (field : Option Field) :
    state.Takes [state.current] (state.take field) := by
  refine ⟨.take state field, ?_, ?_, ?_⟩ <;> rw [ParseState.take, if_neg h]
  · simp [ParseState.heldTokens, push, Event.held?, current]
  · rfl
  · rfl

/-- A slot changes no token that was taken. -/
theorem setField (h : state.Takes tokens after) {outcome : Outcome}
    (hm : ∀ mark kind, outcome = .node mark kind → state.mark ≤ mark) (field : Field) :
    state.Takes tokens (after.setField outcome field) := by
  refine ⟨h.toExtends.setField hm field, ?_, ?_, ?_⟩
  · rw [← h.held]
    cases outcome with
    | node mark kind =>
      rw [ParseState.heldTokens, ParseState.setField]
      simp only [Events.setField, Array.toList_modify]
      exact filterMap_held_modify _ _ fun event => by cases event <;> rfl
    | _ => rfl
  · rw [← h.reports]
    cases outcome <;> rfl
  · rw [← h.failures]
    cases outcome <;> rfl

theorem endNode (h : state.Takes tokens after) {mark : Nat} (hm : state.mark ≤ mark)
    (kind : Kind) : state.Takes tokens (after.endNode mark (.chose kind)).2 := by
  refine ⟨(h.toExtends.endNode hm (.chose kind)).1, ?_, h.reports, h.failures⟩
  rw [← h.held, ParseState.heldTokens, ParseState.endNode]
  simp only [Events.complete, Array.toList_push, Array.toList_modify, List.filterMap_append,
    List.filterMap_cons, Event.held?, List.filterMap_nil, List.append_nil]
  exact filterMap_held_modify _ _ fun event => by cases event <;> rfl

end Takes

end ParseState

namespace Phrase

open ParseState

/-- A frank phrase that fails nowhere takes the same tokens from states that differ only in what was
recorded before, and has nothing to report from either of them. -/
theorem exists_takes {run : ParseState → Outcome × ParseState} (huniform : Uniform run)
    (hframes : Frames run) (hfrank : Frank run) {state other : ParseState}
    (hbare : other.bare = state.bare) (h : (run state).2.failures = state.failures) :
    ∃ tokens, state.Takes tokens (run state).2 ∧ other.Takes tokens (run other).2 := by
  have hrun {front : ParseState} (hfront : front.bare = state.bare) :
      run front = front.resultBehind (run state.bare) := by
    rw [← huniform, behind_of_bare hfront]
  have hzero : (run state.bare).2.failures = 0 := by
    rw [hrun rfl] at h
    exact Nat.add_eq_left.mp h
  have hempty : (run state.bare).2.diagnostics = #[] :=
    Array.size_eq_zero_iff.mp ((hfrank state.bare rfl).trans hzero)
  have htakes {front : ParseState} (hfront : front.bare = state.bare) :
      front.Takes (run state.bare).2.heldTokens (run front).2 := by
    refine ⟨(hframes front).1, ?_, ?_, ?_⟩ <;> rw [hrun hfront]
    · simp [ParseState.heldTokens, resultBehind, behind]
    · simp [resultBehind, behind, hempty]
    · simp [resultBehind, behind, hzero]
  exact ⟨_, htakes rfl, htakes hbare⟩

end Phrase

end ScriptTree

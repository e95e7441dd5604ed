import ScriptTree.Proofs.Parser.Recording

/-!
A phrase adds the same wherever it is run. What was recorded before a phrase does not decide what
the phrase records: behind more events, reports and failures it adds the same ones, and the marks of
its nodes lie further on by as many events as there are more.
-/

namespace ScriptTree

namespace Events

theorem size_add_getElem? {α : Type} (front back : Array α) (mark : Nat) :
    (front ++ back)[front.size + mark]? = back[mark]? := by
  rw [Array.getElem?_append_right (Nat.le_add_right _ _), Nat.add_sub_cancel_left]

theorem startsAt_append (front back : Events) (mark : Nat) :
    startsAt (front ++ back) (front.size + mark) = back.startsAt mark := by
  rw [startsAt, startsAt, size_add_getElem?]

theorem isBlankAt_append (front back : Events) (mark : Nat) :
    isBlankAt (front ++ back) (front.size + mark) = back.isBlankAt mark := by
  rw [isBlankAt, isBlankAt, size_add_getElem?]

theorem modify_append (front back : Events) (mark : Nat) (f : Event → Event) :
    Array.modify (front ++ back) (front.size + mark) f = front ++ back.modify mark f := by
  apply Array.ext'
  rw [Array.toList_modify, Array.toList_append, Array.toList_append, Array.toList_modify,
    ← Array.length_toList]
  induction front.toList with
  | nil => simp
  | cons event rest ih =>
    rw [List.length_cons, Nat.succ_add, List.cons_append, List.modify_succ_cons, ih,
      List.cons_append]

theorem openNode_onto (front back : Events) : openNode (front ++ back) = front ++ back.openNode :=
  Array.append_push.symm

theorem complete_append (front back : Events) (mark : Nat) (kind : Kind) :
    complete (front ++ back) (front.size + mark) kind = front ++ back.complete mark kind := by
  rw [complete, complete, modify_append, Array.append_push]

/-- Giving up a node changes nothing in front of it. -/
theorem abandon_append (front back : Events) (mark : Nat) :
    abandon (front ++ back) (front.size + mark) = front ++ back.abandon mark := by
  have hlast : front.size + mark + 1 = (front ++ back).size ↔ mark + 1 = back.size := by
    rw [Array.size_append]
    omega
  by_cases h : mark + 1 = back.size
  · have hne : back.toList ≠ [] := by
      rintro hnil
      rw [← Array.length_toList, hnil] at h
      exact Nat.succ_ne_zero mark h
    rw [abandon, abandon, if_pos (hlast.mpr h), if_pos h]
    apply Array.ext'
    rw [Array.toList_pop, Array.toList_append, Array.toList_append, Array.toList_pop,
      List.dropLast_append_of_ne_nil hne]
  · rw [abandon, abandon, if_neg (mt hlast.mp h), if_neg h]

theorem setField_append (front back : Events) (mark : Nat) (field : Field) :
    setField (front ++ back) (front.size + mark) field = front ++ back.setField mark field :=
  modify_append front back mark _

theorem precede_append (front back : Events) (mark : Nat) :
    precede (front ++ back) (front.size + mark) = front ++ back.precede mark := by
  have hdistance : (front ++ back).size - (front.size + mark) = back.size - mark := by
    rw [Array.size_append, Nat.add_sub_add_left]
  simp only [precede, hdistance, modify_append, openNode_onto]

theorem shrink_append {α : Type} (front back : Array α) (size : Nat) :
    (front ++ back).shrink (front.size + size) = front ++ back.shrink size := by
  apply Array.ext'
  rw [Array.toList_shrink, Array.toList_append, Array.toList_append, Array.toList_shrink,
    ← Array.length_toList, List.take_length_add_append]

end Events

def Outcome.later (distance : Nat) : Outcome → Outcome
  | .node mark kind => .node (distance + mark) kind
  | outcome => outcome

@[simp] theorem Outcome.fits_later (distance : Nat) (outcome : Outcome) :
    (outcome.later distance).fits = outcome.fits := by
  cases outcome <;> rfl

namespace ParseState

def behind (front state : ParseState) : ParseState :=
  { state with
    events := front.events ++ state.events
    diagnostics := front.diagnostics ++ state.diagnostics
    failures := front.failures + state.failures
    misused := front.misused || state.misused }

theorem behind_bare (state : ParseState) : state.behind state.bare = state := by
  simp [behind, bare]

/-- States that are alike but for what was recorded before. -/
theorem behind_of_bare {front state : ParseState} (h : front.bare = state.bare) :
    front.behind state.bare = front := by
  rw [← h, behind_bare]

theorem mark_behind (front state : ParseState) :
    (front.behind state).mark = front.mark + state.mark :=
  Array.size_append

variable (front state : ParseState)

theorem holds_behind (test : Test) : test.holds (front.behind state) = test.holds state := by
  rw [← Test.holds_bare test (front.behind state), ← Test.holds_bare test state]
  rfl

theorem require_behind (condition : Bool) :
    (front.behind state).require condition = front.behind (state.require condition) := by
  simp only [require, behind, Bool.or_assoc]

theorem push_behind (field : Option Field) :
    (front.behind state).push field = front.behind (state.push field) := by
  simp only [push, behind, Array.append_push]

theorem take_behind (field : Option Field) :
    (front.behind state).take field = front.behind (state.take field) := by
  unfold take
  split
  · next h => rw [if_pos (show state.kind = .eof from h)]
  · next h =>
    rw [if_neg (show state.kind ≠ .eof from h)]
    exact push_behind front state field

theorem report_behind (diagnostic : Diagnostic) :
    (front.behind state).report diagnostic = front.behind (state.report diagnostic) := by
  simp only [report, behind, Array.append_push]

theorem failWith_behind (kind : DiagnosticKind) (message : String) :
    (front.behind state).failWith kind message = front.behind (state.failWith kind message) := by
  simp only [failWith, report, behind, current, Array.append_push, Nat.add_assoc]

theorem fail_behind (message : String) :
    (front.behind state).fail message = front.behind (state.fail message) := by
  unfold fail
  split
  · next h =>
    rw [if_pos (show state.kind = .unknown from h)]
    exact failWith_behind front state _ _
  · next h =>
    rw [if_neg (show state.kind ≠ .unknown from h)]
    exact failWith_behind front state _ _

theorem openNode_behind : (front.behind state).openNode = front.behind state.openNode := by
  simp only [openNode, behind, Events.openNode_onto]

theorem setField_behind (outcome : Outcome) (field : Field) :
    (front.behind state).setField (outcome.later front.mark) field =
      front.behind (state.setField outcome field) := by
  cases outcome with
  | node mark kind =>
    simp only [setField, Outcome.later, require, behind, ParseState.mark, Events.startsAt_append,
      Events.setField_append, Bool.or_assoc]
  | _ => rfl

theorem precede_behind (inner : Nat) :
    (front.behind state).precede (front.mark + inner) = front.behind (state.precede inner) := by
  simp only [precede, require, behind, mark, Events.startsAt_append, Events.precede_append,
    Bool.or_assoc]

end ParseState

def ParseState.resultBehind (front : ParseState) (result : Outcome × ParseState) :
    Outcome × ParseState :=
  (result.1.later front.mark, front.behind result.2)

namespace ParseState

variable (front state : ParseState)

theorem endNode_behind (mark : Nat) (outcome : Outcome) :
    (front.behind state).endNode (front.mark + mark) (outcome.later front.mark) =
      front.resultBehind (state.endNode mark outcome) := by
  cases outcome with
  | chose kind =>
    simp only [endNode, Outcome.later, resultBehind, require, behind, ParseState.mark,
      Events.startsAt_append, Events.complete_append, Bool.or_assoc]
  | _ =>
    simp only [endNode, Outcome.later, resultBehind, require, behind, ParseState.mark,
      Events.isBlankAt_append, Events.abandon_append, Bool.or_assoc]

theorem rewind_behind (checkpoint : ParseState) :
    (front.behind state).rewind (front.behind checkpoint).checkpoint =
      front.behind (state.rewind checkpoint.checkpoint) := by
  simp only [rewind, ParseState.checkpoint, behind, mark, Array.size_append, Events.shrink_append]

theorem isClean_behind (checkpoint : ParseState) (outcome : Outcome) :
    (front.behind state).isClean (front.behind checkpoint).checkpoint (outcome.later front.mark) =
      state.isClean checkpoint.checkpoint outcome := by
  have hfailures : (front.failures + state.failures == front.failures + checkpoint.failures) =
      (state.failures == checkpoint.failures) := by
    rw [Bool.eq_iff_iff]
    simp
  simp only [isClean, Outcome.fits_later, behind, ParseState.checkpoint, hfailures]

theorem firstReportSince_behind (checkpoint : ParseState) :
    (front.behind state).firstReportSince (front.behind checkpoint).checkpoint =
      state.firstReportSince checkpoint.checkpoint := by
  simp only [firstReportSince, behind, ParseState.checkpoint, Array.size_append,
    Events.size_add_getElem?]

theorem skipElement_behind (braces : Nat) (isFirst : Bool) (limit : Nat) :
    (front.behind state).skipElement braces isFirst limit =
      front.behind (state.skipElement braces isFirst limit) := by
  obtain ⟨tokens, last, hskips, -⟩ := skips_skipElement state.lexer braces isFirst limit
  rw [hskips.eq (front.behind state) rfl, hskips.eq state rfl]
  simp only [behind, Array.append_assoc]

/-- An error node is put down in the same way, whatever was recorded before. -/
theorem skipFailed_behind (checkpoint : ParseState) :
    (front.behind state).skipFailed (front.behind checkpoint).checkpoint =
      front.behind (state.skipFailed checkpoint.checkpoint) := by
  have hend (after : ParseState) :
      (((front.behind after).openNode.skipElement 0 true (front.behind after).rounds).endNode
        (front.behind checkpoint).checkpoint.events (.chose .error)).2 =
      front.behind ((after.openNode.skipElement 0 true after.rounds).endNode
        checkpoint.checkpoint.events (.chose .error)).2 := by
    rw [openNode_behind, skipElement_behind]
    have hmark : (front.behind checkpoint).checkpoint.events =
        front.mark + checkpoint.checkpoint.events := mark_behind front checkpoint
    rw [hmark]
    exact congrArg Prod.snd (endNode_behind front _ _ (.chose .error))
  simp only [skipFailed, firstReportSince_behind, rewind_behind]
  split
  · exact hend _
  · rw [report_behind]
    exact hend _

end ParseState

namespace Phrase

open ParseState

variable {Rule : Type}

/-- A way of running comes out the same, and adds the same, behind whatever was recorded before. -/
def Uniform (run : ParseState → Outcome × ParseState) : Prop :=
  ∀ front state : ParseState, run (front.behind state) = front.resultBehind (run state)

/-- A loop does the same in every round, whatever was recorded before it. -/
theorem Uniform.loop {test : ParseState → Bool} {step : ParseState → Outcome × ParseState}
    (htest : ∀ front state : ParseState, test (front.behind state) = test state)
    (h : Uniform step) (front state : ParseState) (limit : Nat) :
    loopWhile test step (front.behind state) limit =
      front.behind (loopWhile test step state limit) := by
  induction limit generalizing state with
  | zero => rfl
  | succ limit ih =>
    rw [loopWhile_succ, loopWhile_succ, htest, h front state]
    have hfailed : (front.resultBehind (step state)).1 = .failed ↔ (step state).1 = .failed := by
      cases ho : (step state).1 <;> simp [resultBehind, Outcome.later, ho]
    simp only [hfailed]
    split
    · split
      · rfl
      · exact ih (step state).2
    · rfl

/-- A chain makes the same nodes, whatever was recorded before them. -/
theorem Uniform.chain {test : ParseState → Bool} {field : Kind → Field}
    {step : ParseState → Outcome × ParseState}
    (htest : ∀ front state : ParseState, test (front.behind state) = test state)
    (h : Uniform step) (front state : ParseState) (mark : Nat) (kind : Kind) (limit : Nat) :
    growChain test field step (front.mark + mark) kind (front.behind state) limit =
      front.resultBehind (growChain test field step mark kind state limit) := by
  induction limit generalizing state mark kind with
  | zero => rfl
  | succ limit ih =>
    rw [growChain, growChain, htest]
    split
    · have hfilled := setField_behind front state (.node mark kind) (field state.kind)
      simp only [Outcome.later] at hfilled
      have hend := endNode_behind front
        (step ((state.setField (.node mark kind) (field state.kind)).precede mark)).2
        (state.setField (.node mark kind) (field state.kind)).mark
        (step ((state.setField (.node mark kind) (field state.kind)).precede mark)).1
      dsimp only
      rw [show (front.behind state).kind = state.kind from rfl, hfilled, precede_behind, h,
        mark_behind]
      simp only [resultBehind] at hend ⊢
      rw [hend]
      rcases endNode _ _ _ with ⟨outcome, after⟩
      cases outcome with
      | node outer kind => exact ih after outer kind
      | _ =>
        dsimp only [Outcome.later]
        rw [require_behind]
    · rfl

/-- Every phrase adds the same wherever it is run. -/
theorem Uniform.phrase {runRule : Rule → ParseState → Outcome × ParseState}
    (hrules : ∀ rule, Uniform (runRule rule)) (phrase : Phrase Rule) :
    Uniform (phrase.run runRule) := by
  -- an outcome without a mark is the same behind a front
  have hplain (front : ParseState) {outcome : Outcome} {after after' : ParseState}
      (ho : outcome.later front.mark = outcome) (h : after = front.behind after') :
      (outcome, after) = front.resultBehind (outcome, after') := by
    rw [h, resultBehind, ho]
  induction phrase with
  | done => exact fun front state => rfl
  | reject => exact fun front state => rfl
  | take field => exact fun front state => hplain front rfl (take_behind front state field)
  | expect kind field =>
    intro front state
    simp only [run]
    split
    · next h =>
      rw [if_pos (show state.kind = kind from h)]
      exact hplain front rfl (take_behind front state field)
    · next h =>
      rw [if_neg (show state.kind ≠ kind from h)]
      exact hplain front rfl (fail_behind front state _)
  | close kind =>
    intro front state
    simp only [run]
    split
    · next h =>
      rw [if_pos (show state.kind = kind from h)]
      exact hplain front rfl (take_behind front state none)
    · next h =>
      rw [if_neg (show state.kind ≠ kind from h)]
      exact hplain front rfl (report_behind front state _)
  | missing what => exact fun front state => hplain front rfl (fail_behind front state _)
  | refuse message => exact fun front state => hplain front rfl (fail_behind front state _)
  | demand kind => exact fun front state => hplain front rfl (require_behind front state _)
  | relex mode => exact fun front state => rfl
  | seq first second ih ih' =>
    intro front state
    simp only [run, ih front state]
    exact ih' front _
  | both first second ih ih' =>
    intro front state
    simp only [run, ih front state]
    rcases first.run runRule state with ⟨outcome, after⟩
    cases outcome with
    | failed => rfl
    | _ => exact ih' front after
  | branch test yes no ih ih' =>
    intro front state
    simp only [run, holds_behind]
    split
    · exact ih front state
    · exact ih' front state
  | loop test body ih =>
    intro front state
    exact hplain front rfl
      (ih.loop (fun front state => holds_behind front state test) front state _)
  | choose kind => exact fun front state => rfl
  | node body ih =>
    intro front state
    simp only [run, openNode_behind, ih front, mark_behind]
    exact endNode_behind front _ _ _
  | slot field body ih =>
    intro front state
    simp only [run, ih front state, resultBehind]
    rw [setField_behind]
    rfl
  | chain head test field body ih ih' =>
    intro front state
    simp only [run, ih front state]
    rcases head.run runRule state with ⟨outcome, after⟩
    cases outcome with
    | node mark kind =>
      exact ih'.chain (fun front state => holds_behind front state test) front after mark kind _
    | _ => rfl
  | look probe yes no ih ih' ih'' =>
    intro front state
    simp only [run, ih front state, resultBehind, isClean_behind, rewind_behind]
    split
    · exact ih' front _
    · exact ih'' front _
  | attempt body yes no ih ih' ih'' =>
    intro front state
    simp only [run, ih front state, resultBehind, isClean_behind, rewind_behind]
    split
    · exact ih' front _
    · exact ih'' front _
  | blame shape reading ih ih' =>
    intro front state
    simp only [run, ih front state, resultBehind, rewind_behind, ih' front, firstReportSince_behind,
      report_behind]
    rfl
  | recover element ih =>
    intro front state
    -- failures are counted on from the front on both sides
    have hfailures : (front.behind (element.run runRule state).2).failures =
        (front.behind state).checkpoint.failures ↔
          (element.run runRule state).2.failures = state.checkpoint.failures :=
      Nat.add_left_cancel_iff
    simp only [run, ih front state, resultBehind, hfailures, skipFailed_behind]
    split <;> rfl
  | absorb body ih =>
    intro front state
    simp only [run, ih front state]
    rfl
  | nested body ih =>
    intro front state
    have hdeeper : { front.behind state with depth := (front.behind state).depth + 1 } =
        front.behind { state with depth := state.depth + 1 } := rfl
    simp only [run, hdeeper, ih front]
    split
    · next h =>
      rw [if_pos (show state.limit ≤ state.depth from h)]
      exact hplain front rfl (failWith_behind front state _ _)
    · next h =>
      rw [if_neg (show ¬ state.limit ≤ state.depth from h)]
      rfl
  | call rule => exact hrules rule

/-- Every rule adds the same wherever it is run, whatever its budget. -/
theorem uniform_runRule (grammar : Rule → Phrase Rule) (budget : Nat) (rule : Rule) :
    Uniform (runRule grammar budget rule) := by
  induction budget generalizing rule with
  | zero => exact fun front state => rfl
  | succ budget ih => exact Uniform.phrase ih (grammar rule)

section

variable {run : ParseState → Outcome × ParseState} {state other : ParseState}

/-- From states that differ only in what was recorded before, a phrase comes to states that do. -/
theorem Uniform.bare_eq (h : Uniform run) (hbare : other.bare = state.bare) :
    (run other).2.bare = (run state).2.bare := by
  have hrun {front : ParseState} (hfront : front.bare = state.bare) :
      (run front).2.bare = (run state.bare).2.bare := by
    rw [← behind_of_bare hfront, h]
    rfl
  rw [hrun hbare, hrun rfl]

/-- From states that differ only in what was recorded before, a phrase makes nodes of one kind. -/
theorem Uniform.exists_node (h : Uniform run) (hbare : other.bare = state.bare) {mark : Nat}
    {kind : Kind} (hnode : (run state).1 = .node mark kind) :
    ∃ mark', (run other).1 = .node mark' kind := by
  rw [← behind_bare state, h] at hnode
  rw [← behind_of_bare hbare, h]
  cases ho : (run state.bare).1 with
  | node inner made =>
    simp only [resultBehind, ho, Outcome.later] at hnode ⊢
    exact ⟨_, by rw [(Outcome.node.inj hnode).2]⟩
  | _ => simp [resultBehind, ho, Outcome.later] at hnode

end

end Phrase

end ScriptTree

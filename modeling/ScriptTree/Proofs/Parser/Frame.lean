import ScriptTree.Proofs.Parser.Skip
import ScriptTree.Parser.Phrase

/-!
What a phrase leaves alone. Whatever a phrase does, and from whatever state it starts, the events
and the reports before it stay a front of those after it, and the depth is what it was. The nodes
that a phrase completes, moves into slots or opens others in front of are its own: their marks lie
behind all events that were there before.
-/

namespace ScriptTree

namespace Events

variable {front events : Events}

/-- Changing an event behind a front keeps the front. -/
theorem front_modify (h : front.toList <+: events.toList) {mark : Nat} (hm : front.size ≤ mark)
    (f : Event → Event) : front.toList <+: (events.modify mark f).toList := by
  rw [List.prefix_iff_getElem?] at h ⊢
  intro i hi
  have hne : ¬ mark = i := by
    rw [Array.length_toList] at hi
    omega
  simp only [Array.toList_modify, List.getElem?_modify, h i hi, if_neg hne]
  rfl

theorem front_push (h : front.toList <+: events.toList) (event : Event) :
    front.toList <+: (events.push event).toList := by
  rw [Array.toList_push]
  exact h.trans (List.prefix_append _ _)

theorem front_complete (h : front.toList <+: events.toList) {mark : Nat} (hm : front.size ≤ mark)
    (kind : Kind) : front.toList <+: (events.complete mark kind).toList :=
  front_push (front_modify h hm _) _

/-- The blank that goes away with an abandoned node lies behind the front. -/
theorem front_abandon (h : front.toList <+: events.toList) {mark : Nat} (hm : front.size ≤ mark) :
    front.toList <+: (events.abandon mark).toList := by
  unfold abandon
  split
  · next hlast =>
    obtain ⟨more, hmore⟩ := h
    have hne : more ≠ [] := by
      rintro rfl
      have hsize := congrArg List.length hmore
      simp only [List.append_nil, Array.length_toList] at hsize
      omega
    rw [Array.toList_pop, ← hmore, List.dropLast_append_of_ne_nil hne]
    exact List.prefix_append _ _
  · exact h

theorem front_setField (h : front.toList <+: events.toList) {mark : Nat} (hm : front.size ≤ mark)
    (field : Field) : front.toList <+: (events.setField mark field).toList :=
  front_modify h hm _

theorem front_precede (h : front.toList <+: events.toList) {mark : Nat} (hm : front.size ≤ mark) :
    front.toList <+: (events.precede mark).toList :=
  front_push (front_modify h hm _) _

/-- Cutting events back to a front of them gives that front. -/
theorem shrink_eq {α : Type} {front rest : Array α} (h : front.toList <+: rest.toList) :
    rest.shrink front.size = front := by
  obtain ⟨more, hmore⟩ := h
  apply Array.ext'
  have hsize : front.size = front.toList.length := Array.length_toList.symm
  rw [Array.toList_shrink, ← hmore, hsize, List.take_left]

end Events

namespace ParseState

def noting (state : ParseState) (misused : Bool) : ParseState :=
  { state with misused }

structure Extends (state after : ParseState) : Prop where
  events : state.events.toList <+: after.events.toList
  diagnostics : state.diagnostics.toList <+: after.diagnostics.toList
  depth : after.depth = state.depth
  limit : after.limit = state.limit
  size : after.size = state.size

namespace Extends

variable {state middle after : ParseState}

theorem refl (state : ParseState) : state.Extends state :=
  ⟨List.prefix_rfl, List.prefix_rfl, rfl, rfl, rfl⟩

theorem trans (h : state.Extends middle) (h' : middle.Extends after) : state.Extends after :=
  ⟨h.events.trans h'.events, h.diagnostics.trans h'.diagnostics, h'.depth.trans h.depth,
    h'.limit.trans h.limit, h'.size.trans h.size⟩

theorem size_le (h : state.Extends after) : state.mark ≤ after.mark := by
  simpa [mark] using h.events.length_le

/-- The parts of a state that the condition is not about can be anything. -/
theorem of_eq (h : state.Extends middle) (he : after.events = middle.events)
    (hr : after.diagnostics = middle.diagnostics) (hd : after.depth = middle.depth)
    (hl : after.limit = middle.limit) (hs : after.size = middle.size) : state.Extends after :=
  ⟨he ▸ h.events, hr ▸ h.diagnostics, hd.trans h.depth, hl.trans h.limit, hs.trans h.size⟩

theorem noting (state : ParseState) (misused : Bool) : state.Extends (state.noting misused) :=
  (refl state).of_eq rfl rfl rfl rfl rfl

theorem require (h : state.Extends after) (condition : Bool) :
    state.Extends (after.require condition) :=
  h.of_eq rfl rfl rfl rfl rfl

theorem push (state : ParseState) (field : Option Field) : state.Extends (state.push field) :=
  ⟨Events.front_push List.prefix_rfl _, List.prefix_rfl, rfl, rfl, rfl⟩

theorem take (state : ParseState) (field : Option Field) : state.Extends (state.take field) := by
  unfold ParseState.take
  split
  · exact refl state
  · exact push state field

theorem report (state : ParseState) (diagnostic : Diagnostic) :
    state.Extends (state.report diagnostic) := by
  refine ⟨List.prefix_rfl, ?_, rfl, rfl, rfl⟩
  simp [ParseState.report]

theorem failWith (state : ParseState) (kind : DiagnosticKind) (message : String) :
    state.Extends (state.failWith kind message) :=
  (report state ⟨kind, message, state.current.span⟩).of_eq rfl rfl rfl rfl rfl

theorem fail (state : ParseState) (message : String) : state.Extends (state.fail message) := by
  unfold ParseState.fail
  split
  · exact failWith state _ _
  · exact failWith state _ _

theorem openNode (state : ParseState) : state.Extends state.openNode :=
  ⟨Events.front_push List.prefix_rfl _, List.prefix_rfl, rfl, rfl, rfl⟩

theorem setField (h : state.Extends after) {outcome : Outcome}
    (hm : ∀ mark kind, outcome = .node mark kind → state.mark ≤ mark) (field : Field) :
    state.Extends (after.setField outcome field) := by
  cases outcome with
  | node mark kind =>
    exact ⟨Events.front_setField h.events (hm mark kind rfl) field, h.diagnostics, h.depth, h.limit,
      h.size⟩
  | _ => exact h

theorem precede (h : state.Extends after) {mark : Nat} (hm : state.mark ≤ mark) :
    state.Extends (after.precede mark) :=
  ⟨Events.front_precede h.events hm, h.diagnostics, h.depth, h.limit, h.size⟩

/-- A node that is ended has its mark behind the front, and its mark is that of the outcome. -/
theorem endNode (h : state.Extends after) {mark : Nat} (hm : state.mark ≤ mark)
    (outcome : Outcome) : state.Extends (after.endNode mark outcome).2 ∧
      ∀ mark' kind, (after.endNode mark outcome).1 = .node mark' kind → state.mark ≤ mark' := by
  cases outcome with
  | chose kind =>
    refine ⟨⟨Events.front_complete h.events hm kind, h.diagnostics, h.depth, h.limit, h.size⟩, ?_⟩
    intro mark' kind' he
    exact (Outcome.node.inj he).1 ▸ hm
  | _ =>
    exact ⟨⟨Events.front_abandon h.events hm, h.diagnostics, h.depth, h.limit, h.size⟩,
      fun _ _ heq => nomatch heq⟩

/-- Going back to a state restores it. Only a broken rule of use is not forgotten. -/
theorem rewind (h : state.Extends after) :
    after.rewind state.checkpoint = state.noting after.misused := by
  simp only [ParseState.rewind, ParseState.noting, checkpoint, mark, Events.shrink_eq h.events,
    Events.shrink_eq h.diagnostics, h.depth, h.limit, h.size]

/-- Skipping an element only adds events. -/
theorem skipElement (state : ParseState) (braces : Nat) (isFirst : Bool) (limit : Nat) :
    state.Extends (state.skipElement braces isFirst limit) := by
  obtain ⟨tokens, last, hskips, -⟩ := skips_skipElement state.lexer braces isFirst limit
  have hskip := hskips.eq state rfl
  refine ⟨?_, ?_, ?_, ?_, ?_⟩ <;> simp [hskip]

/-- An error node in place of a failed element. -/
theorem skipFailed (h : state.Extends after) :
    state.Extends (after.skipFailed state.checkpoint) := by
  simp only [ParseState.skipFailed, h.rewind]
  have hopen (reported : ParseState) (hr : state.Extends reported) : state.Extends
      ((reported.openNode.skipElement 0 true reported.rounds).endNode state.mark
        (.chose .error)).2 :=
    (((hr.trans (openNode reported)).trans (skipElement _ _ _ _)).endNode (Nat.le_refl _) _).1
  have hstart := noting state after.misused
  split
  · exact hopen _ hstart
  · next first _ => exact hopen _ (hstart.trans (report _ first))

end Extends

end ParseState

namespace Phrase

open ParseState

variable {Rule : Type}

def Frames (run : ParseState → Outcome × ParseState) : Prop :=
  ∀ state : ParseState, state.Extends (run state).2 ∧
    ∀ mark kind, (run state).1 = .node mark kind → state.mark ≤ mark

/-- A broken rule of use does not matter to what is left alone. -/
theorem Frames.noting {run : ParseState → Outcome × ParseState} (h : Frames run)
    (state : ParseState) (misused : Bool) : state.Extends (run (state.noting misused)).2 ∧
      ∀ mark kind, (run (state.noting misused)).1 = .node mark kind → state.mark ≤ mark :=
  ⟨(Extends.noting state misused).trans (h _).1, (h (state.noting misused)).2⟩

theorem Frames.loop {test : ParseState → Bool} {step : ParseState → Outcome × ParseState}
    (h : Frames step) (state : ParseState) (limit : Nat) :
    state.Extends (loopWhile test step state limit) := by
  induction limit generalizing state with
  | zero => exact .refl state
  | succ limit ih =>
    rw [loopWhile]
    split
    · have hstep := (h state).1
      split
      · next after he =>
        rw [he] at hstep
        exact hstep
      · next after _ he =>
        rw [he] at hstep
        exact hstep.trans (ih _)
    · exact .refl state

/-- By induction on the rounds: each node lies where the one before it lay, or further on. -/
theorem Frames.chain {test : ParseState → Bool} {field : Kind → Field}
    {step : ParseState → Outcome × ParseState} (h : Frames step) {state after : ParseState}
    {mark : Nat} (he : state.Extends after) (hm : state.mark ≤ mark) (kind : Kind) (limit : Nat) :
    state.Extends (growChain test field step mark kind after limit).2 ∧
      ∀ mark' kind', (growChain test field step mark kind after limit).1 = .node mark' kind' →
        state.mark ≤ mark' := by
  have hown (mark' : Nat) (kind' : Kind) (ho : Outcome.node mark kind = .node mark' kind') :
      state.mark ≤ mark' :=
    (Outcome.node.inj ho).1 ▸ hm
  induction limit generalizing after mark kind with
  | zero => exact ⟨he, hown⟩
  | succ limit ih =>
    rw [growChain]
    split
    · have hfilled : state.Extends (after.setField (.node mark kind) (field after.kind)) :=
        he.setField hown _
      have hstep := hfilled.precede hm |>.trans
        (h ((after.setField (.node mark kind) (field after.kind)).precede mark)).1
      dsimp only
      obtain ⟨hend, hmark⟩ := hstep.endNode hfilled.size_le
        (step ((after.setField (.node mark kind) (field after.kind)).precede mark)).1
      split
      · next outer kind' last heq =>
        rw [heq] at hend hmark
        have hle := hmark outer kind' rfl
        exact ih hend hle kind' fun _ _ ho => (Outcome.node.inj ho).1 ▸ hle
      · next last _ heq =>
        rw [heq] at hend
        exact ⟨hend.require false, hown⟩
    · exact ⟨he, hown⟩

/-- Every phrase leaves alone what was there before. -/
theorem Frames.phrase {runRule : Rule → ParseState → Outcome × ParseState}
    (hrules : ∀ rule, Frames (runRule rule)) (phrase : Phrase Rule) :
    Frames (phrase.run runRule) := by
  induction phrase with
  | done => exact fun state => ⟨.refl state, fun _ _ heq => nomatch heq⟩
  | reject => exact fun state => ⟨.refl state, fun _ _ heq => nomatch heq⟩
  | take field => exact fun state => ⟨.take state field, fun _ _ heq => nomatch heq⟩
  | expect kind field =>
    intro state
    simp only [run]
    split
    · exact ⟨.take state field, fun _ _ heq => nomatch heq⟩
    · exact ⟨.fail state _, fun _ _ heq => nomatch heq⟩
  | close kind =>
    intro state
    simp only [run]
    split
    · exact ⟨.take state none, fun _ _ heq => nomatch heq⟩
    · exact ⟨.report state _, fun _ _ heq => nomatch heq⟩
  | missing what => exact fun state => ⟨.fail state _, fun _ _ heq => nomatch heq⟩
  | refuse message => exact fun state => ⟨.fail state _, fun _ _ heq => nomatch heq⟩
  | demand kind => exact fun state => ⟨(Extends.refl state).require _, fun _ _ heq => nomatch heq⟩
  | relex mode =>
    exact fun state => ⟨(Extends.refl state).of_eq rfl rfl rfl rfl rfl,
      fun _ _ heq => nomatch heq⟩
  | seq first second ih ih' =>
    intro state
    have hfirst := (ih state).1
    obtain ⟨hsecond, hmark⟩ := ih' (first.run runRule state).2
    exact ⟨hfirst.trans hsecond, fun mark kind he => hfirst.size_le.trans (hmark mark kind he)⟩
  | both first second ih ih' =>
    intro state
    have hfirst := (ih state).1
    simp only [run]
    split
    · next after he =>
      rw [he] at hfirst
      exact ⟨hfirst, fun _ _ heq => nomatch heq⟩
    · next after _ he =>
      rw [he] at hfirst
      obtain ⟨hsecond, hmark⟩ := ih' after
      exact ⟨hfirst.trans hsecond, fun mark kind he => hfirst.size_le.trans (hmark mark kind he)⟩
  | branch test yes no ih ih' =>
    intro state
    simp only [run]
    split
    · exact ih state
    · exact ih' state
  | loop test body ih =>
    intro state
    simp only [run]
    exact ⟨ih.loop state state.rounds, fun _ _ heq => nomatch heq⟩
  | choose kind => exact fun state => ⟨.refl state, fun _ _ heq => nomatch heq⟩
  | node body ih =>
    intro state
    -- the node begins at the end of what was there, so ending it leaves that alone
    exact ((Extends.openNode state).trans (ih state.openNode).1).endNode (Nat.le_refl _) _
  | slot field body ih =>
    intro state
    obtain ⟨hbody, hmark⟩ := ih state
    exact ⟨hbody.setField hmark _, hmark⟩
  | chain head test field body ih ih' =>
    intro state
    obtain ⟨hhead, hmark⟩ := ih state
    simp only [run]
    split
    · next mark kind after he =>
      rw [he] at hhead hmark
      exact ih'.chain hhead (hmark mark kind rfl) kind _
    · next after _ he =>
      rw [he] at hhead
      exact ⟨hhead, fun _ _ heq => nomatch heq⟩
  | look probe yes no ih ih' ih'' =>
    intro state
    -- behind the probe, everything but the note of a misuse is what it was
    have hback := (ih state).1.rewind
    simp only [run, hback]
    split
    · exact ih'.noting state _
    · exact ih''.noting state _
  | attempt body yes no ih ih' ih'' =>
    intro state
    have hbody := (ih state).1
    simp only [run]
    split
    · obtain ⟨hyes, hmark⟩ := ih' (body.run runRule state).2
      exact ⟨hbody.trans hyes, fun mark kind he => hbody.size_le.trans (hmark mark kind he)⟩
    · rw [hbody.rewind]
      exact ih''.noting state _
  | blame shape reading ih ih' =>
    intro state
    have hshape := (ih state).1
    simp only [run, hshape.rewind]
    -- the second reading starts from the first note
    rw [(ih'.noting state _).1.rewind]
    exact ⟨(Extends.noting state _).trans (.report _ _), fun _ _ heq => nomatch heq⟩
  | recover element ih =>
    intro state
    have helement := (ih state).1
    simp only [run]
    split
    · exact ⟨helement, fun _ _ heq => nomatch heq⟩
    · exact ⟨helement.skipFailed, fun _ _ heq => nomatch heq⟩
  | absorb body ih =>
    intro state
    obtain ⟨hbody, hmark⟩ := ih state
    exact ⟨hbody.of_eq rfl rfl rfl rfl rfl, hmark⟩
  | nested body ih =>
    intro state
    simp only [run]
    split
    · exact ⟨.failWith state _ _, fun _ _ heq => nomatch heq⟩
    · obtain ⟨hbody, hmark⟩ := ih { state with depth := state.depth + 1 }
      refine ⟨⟨hbody.events, hbody.diagnostics, ?_, hbody.limit, hbody.size⟩, hmark⟩
      show (body.run runRule { state with depth := state.depth + 1 }).2.depth - 1 = state.depth
      rw [hbody.depth]
      rfl
  | call rule => exact hrules rule

/-- Every rule leaves alone what was there before, whatever its budget. -/
theorem frames_runRule (grammar : Rule → Phrase Rule) (budget : Nat) (rule : Rule) :
    Frames (runRule grammar budget rule) := by
  induction budget generalizing rule with
  | zero => exact fun state => ⟨.refl state, fun _ _ heq => nomatch heq⟩
  | succ budget ih => exact Frames.phrase ih (grammar rule)

end Phrase

end ScriptTree

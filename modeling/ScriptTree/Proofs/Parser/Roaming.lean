import ScriptTree.Proofs.Lexer.Reading
import ScriptTree.Proofs.Parser.Calls

/-!
A parse reads on. Whatever phrase is run, and whatever phrases are in progress at once, the lexer of
every state on the way has been reached by reading from where the outermost phrase started.
-/

namespace ScriptTree

namespace ParseState

structure Onward (state after : ParseState) : Prop where
  reads : ∃ tokens, Lexer.Reads state.lexer tokens after.lexer
  size : after.size = state.size

namespace Onward

variable {state middle after : ParseState}

theorem refl (state : ParseState) : state.Onward state :=
  ⟨⟨[], .refl _⟩, rfl⟩

theorem trans (h : state.Onward middle) (h' : middle.Onward after) : state.Onward after := by
  obtain ⟨tokens, hreads⟩ := h.reads
  obtain ⟨tokens', hreads'⟩ := h'.reads
  exact ⟨⟨_, hreads.trans hreads'⟩, h'.size.trans h.size⟩

/-- Only the lexer and the size of the text matter. -/
theorem of_eq (h : state.Onward middle) (hlexer : after.lexer = middle.lexer)
    (hsize : after.size = middle.size) : state.Onward after :=
  ⟨hlexer ▸ h.reads, hsize.trans h.size⟩

theorem offset_le (h : state.Onward after) (hplaced : state.lexer.Placed) :
    state.lexer.start.offset ≤ after.lexer.start.offset := by
  obtain ⟨tokens, hreads⟩ := h.reads
  obtain ⟨chars, hpasses⟩ := (hreads.tiled hplaced).passes
  exact hpasses.offset_le

theorem reached (h : state.Onward after) {text : String} (hstate : state.lexer.Reached text) :
    after.lexer.Reached text := by
  obtain ⟨tokens, hreads⟩ := h.reads
  exact hstate.reads hreads

/-- Going back to where a phrase started. -/
theorem rewind (h : state.Onward after) : state.Onward (after.rewind state.checkpoint) :=
  ⟨⟨[], .refl _⟩, h.size⟩

theorem take (state : ParseState) (field : Option Field) : state.Onward (state.take field) := by
  rw [ParseState.take]
  split
  · exact refl state
  · exact ⟨⟨_, .take (.refl _)⟩, rfl⟩

theorem discard (state : ParseState) : state.Onward state.discard := by
  rw [ParseState.discard]
  split
  · exact refl state
  · exact ⟨⟨_, .take (.refl _)⟩, rfl⟩

theorem fail (state : ParseState) (message : String) : state.Onward (state.fail message) := by
  rw [ParseState.fail]
  split
  · exact (refl state).of_eq rfl rfl
  · exact (refl state).of_eq rfl rfl

theorem endNode (h : state.Onward after) (mark : Nat) (outcome : Outcome) :
    state.Onward (after.endNode mark outcome).2 := by
  cases outcome <;> exact h.of_eq rfl rfl

theorem setField (h : state.Onward after) (outcome : Outcome) (field : Field) :
    state.Onward (after.setField outcome field) := by
  cases outcome <;> exact h.of_eq rfl rfl

theorem skipElement (state : ParseState) (braces : Nat) (isFirst : Bool) (limit : Nat) :
    state.Onward (state.skipElement braces isFirst limit) := by
  induction limit generalizing state braces isFirst with
  | zero => exact refl state
  | succ limit ih =>
    have hrest (braces : Nat) := (discard state).trans (ih state.discard braces false)
    unfold ParseState.skipElement
    repeat' split
    all_goals first | exact refl state | exact discard state | exact hrest _

theorem skipFailed (h : state.Onward after) :
    state.Onward (after.skipFailed state.checkpoint) := by
  have hback := h.rewind
  rw [ParseState.skipFailed]
  refine (trans ?_ (skipElement _ 0 true _)).endNode _ _
  split
  · exact hback.of_eq rfl rfl
  · exact hback.of_eq rfl rfl

end Onward

end ParseState

namespace Phrase

open ParseState

variable {Rule : Type}

def Wanders (step : ParseState → Outcome × ParseState) : Prop :=
  ∀ state : ParseState, state.Onward (step state).2

variable {test : ParseState → Bool} {field : Kind → Field}
  {step : ParseState → Outcome × ParseState} {state : ParseState}

theorem Wanders.loopWhile (h : Wanders step) (limit : Nat) :
    state.Onward (loopWhile test step state limit) := by
  induction limit generalizing state with
  | zero => exact .refl state
  | succ limit ih =>
    rw [ParseState.loopWhile]
    have hstep := h state
    split
    · split
      · next heq => rwa [heq] at hstep
      · next heq =>
        rw [heq] at hstep
        exact hstep.trans ih
    · exact .refl state

theorem Wanders.growChain (h : Wanders step) (mark : Nat) (kind : Kind) (limit : Nat) :
    state.Onward (growChain test field step mark kind state limit).2 := by
  induction limit generalizing mark kind state with
  | zero => exact .refl state
  | succ limit ih =>
    simp only [ParseState.growChain]
    split
    · let start := (state.setField (.node mark kind) (field state.kind)).precede mark
      have hstart : state.Onward start := ((Onward.refl state).setField _ _).of_eq rfl rfl
      have hend := (hstart.trans (h start)).endNode
        (state.setField (.node mark kind) (field state.kind)).mark (step start).1
      split
      · next heq =>
        rw [heq] at hend
        exact hend.trans (ih _ _)
      · next heq =>
        rw [heq] at hend
        exact hend.of_eq rfl rfl
    · exact .refl state

/-- Every round of a loop starts on a way from where the loop does. -/
theorem Wanders.of_mem_loopStates (h : Wanders step) {limit : Nat} {start : ParseState}
    (hmem : start ∈ loopStates test step state limit) : state.Onward start := by
  induction limit generalizing state with
  | zero => cases hmem
  | succ limit ih =>
    rw [loopStates] at hmem
    have hstep := h state
    split at hmem
    · rcases List.mem_cons.mp hmem with rfl | hmem
      · exact .refl _
      · split at hmem
        · cases hmem
        · next heq =>
          rw [heq] at hstep
          exact hstep.trans (ih hmem)
    · cases hmem

/-- Every round of a chain starts on a way from where the chain does. -/
theorem Wanders.of_mem_chainStates (h : Wanders step) {mark : Nat} {kind : Kind} {limit : Nat}
    {start : ParseState} (hmem : start ∈ chainStates test field step mark kind state limit) :
    state.Onward start := by
  induction limit generalizing mark kind state with
  | zero => cases hmem
  | succ limit ih =>
    rw [chainStates] at hmem
    split at hmem
    · let first := (state.setField (.node mark kind) (field state.kind)).precede mark
      have hfirst : state.Onward first := ((Onward.refl state).setField _ _).of_eq rfl rfl
      rcases List.mem_cons.mp hmem with rfl | hmem
      · exact hfirst
      · have hend := (hfirst.trans (h first)).endNode
          (state.setField (.node mark kind) (field state.kind)).mark (step first).1
        split at hmem
        · next heq =>
          rw [heq] at hend
          exact hend.trans (ih hmem)
        · cases hmem
    · cases hmem

/-- A run of a phrase reads on. -/
theorem Wanders.run {runRule : Rule → ParseState → Outcome × ParseState}
    (h : ∀ rule, Wanders (runRule rule)) (phrase : Phrase Rule) : Wanders (phrase.run runRule) := by
  induction phrase with
  | take field => exact fun state => .take state field
  | expect kind field =>
    intro state
    rw [Phrase.run]
    split
    · exact .take state field
    · exact .fail state _
  | close kind =>
    intro state
    rw [Phrase.run]
    split
    · exact .take state none
    · exact (Onward.refl state).of_eq rfl rfl
  | missing what => exact fun state => .fail state _
  | refuse message => exact fun state => .fail state _
  | relex mode => exact fun state => ⟨⟨_, .relex mode (.refl _)⟩, rfl⟩
  | seq first second ih ih' => exact fun state => (ih state).trans (ih' _)
  | both first second ih ih' =>
    intro state
    rw [Phrase.run]
    have hfirst := ih state
    split
    · next heq => rwa [heq] at hfirst
    · next heq =>
      rw [heq] at hfirst
      exact hfirst.trans (ih' _)
  | branch test yes no ih ih' =>
    intro state
    rw [Phrase.run]
    split
    · exact ih state
    · exact ih' state
  | loop test body ih => exact fun state => ih.loopWhile _
  | node body ih =>
    intro state
    have hopen : state.Onward state.openNode := (Onward.refl state).of_eq rfl rfl
    exact (hopen.trans (ih _)).endNode _ _
  | slot field body ih => exact fun state => (ih state).setField _ _
  | chain head test field body ih ih' =>
    intro state
    rw [Phrase.run]
    have hhead := ih state
    split
    · next heq =>
      rw [heq] at hhead
      exact hhead.trans (ih'.growChain _ _ _)
    · next heq => rwa [heq] at hhead
  | look probe yes no ih ih' ih'' =>
    intro state
    -- going back puts the lexer where it was, which is on the way
    have hback := (ih state).rewind
    simp only [Phrase.run]
    split
    · exact hback.trans (ih' _)
    · exact hback.trans (ih'' _)
  | attempt body yes no ih ih' ih'' =>
    intro state
    have hbody := ih state
    simp only [Phrase.run]
    split
    · exact hbody.trans (ih' _)
    · exact hbody.rewind.trans (ih'' _)
  | blame shape reading ih ih' =>
    intro state
    have hback := (ih state).rewind.trans (ih' _)
    exact hback.rewind.of_eq rfl rfl
  | recover element ih =>
    intro state
    simp only [Phrase.run]
    split
    · exact ih state
    · exact (ih state).skipFailed
  | absorb body ih => exact fun state => (ih state).of_eq rfl rfl
  | nested body ih =>
    intro state
    simp only [Phrase.run]
    split
    · exact (Onward.refl state).of_eq rfl rfl
    · have hdeeper : state.Onward { state with depth := state.depth + 1 } :=
        (Onward.refl state).of_eq rfl rfl
      exact (hdeeper.trans (ih _)).of_eq rfl rfl
  | call rule => exact h rule
  | _ => exact fun state => (Onward.refl state).of_eq rfl rfl

theorem wanders_runRule (grammar : Rule → Phrase Rule) (budget : Nat) (rule : Rule) :
    Wanders (runRule grammar budget rule) := by
  induction budget generalizing rule with
  | zero => exact fun state => .refl state
  | succ budget ih => exact Wanders.run ih (grammar rule)

end Phrase

namespace CallFrame

open Phrase ParseState

variable {Rule : Type} {grammar : Rule → Phrase Rule} {outer inner : CallFrame Rule}

/-- Whatever a phrase in progress starts, it starts behind where it was started itself. -/
theorem onward_of_mem_starts (hin : inner ∈ outer.starts grammar) :
    outer.state.Onward inner.state := by
  obtain ⟨budget, phrase, state⟩ := outer
  have hwanders := Wanders.run (wanders_runRule grammar budget)
  have hsame := Onward.refl state
  cases phrase with
  | seq first second =>
    simp only [starts, List.mem_cons, List.not_mem_nil, or_false] at hin
    rcases hin with rfl | rfl
    · exact hsame
    · exact hwanders first state
  | both first second =>
    simp only [starts, List.mem_cons] at hin
    rcases hin with rfl | hin
    · exact hsame
    · have hfirst := hwanders first state
      split at hin
      · cases hin
      · next heq =>
        rw [heq] at hfirst
        obtain rfl := List.mem_singleton.mp hin
        exact hfirst
  | branch test yes no =>
    obtain rfl := List.mem_singleton.mp hin
    exact hsame
  | loop test body =>
    simp only [starts, List.mem_map] at hin
    obtain ⟨start, hstart, rfl⟩ := hin
    exact (hwanders body).of_mem_loopStates hstart
  | chain head test field body =>
    simp only [starts, List.mem_cons] at hin
    rcases hin with rfl | hin
    · exact hsame
    · -- a round starts behind the head, and behind the rounds before it
      have hhead := hwanders head state
      split at hin
      · next heq =>
        rw [heq] at hhead
        obtain ⟨start, hstart, rfl⟩ := List.mem_map.mp hin
        exact hhead.trans ((hwanders body).of_mem_chainStates hstart)
      · cases hin
  | look probe yes no =>
    simp only [starts, List.mem_cons, List.not_mem_nil, or_false] at hin
    rcases hin with rfl | rfl
    · exact hsame
    · exact (hwanders probe state).rewind
  | attempt body yes no =>
    simp only [starts, List.mem_cons, List.not_mem_nil, or_false] at hin
    have hbody := hwanders body state
    rcases hin with rfl | rfl
    · exact hsame
    · split
      · exact hbody
      · exact hbody.rewind
  | blame shape reading =>
    simp only [starts, List.mem_cons, List.not_mem_nil, or_false] at hin
    rcases hin with rfl | rfl
    · exact hsame
    · exact (hwanders shape state).rewind
  | nested body =>
    simp only [starts] at hin
    split at hin
    · cases hin
    · obtain rfl := List.mem_singleton.mp hin
      exact hsame.of_eq rfl rfl
  | call rule =>
    simp only [starts] at hin
    split at hin
    · cases hin
    · obtain rfl := List.mem_singleton.mp hin
      exact hsame
  | node body | slot field body | recover body | absorb body =>
    obtain rfl := List.mem_singleton.mp hin
    exact hsame.of_eq rfl rfl
  | _ => cases hin

/-- Phrases in progress at once stand behind where the outermost one was started. -/
theorem onward_of_chain {frames : List (CallFrame Rule)}
    (hchain : (outer :: frames).IsChain fun outer inner => inner ∈ outer.starts grammar) :
    ∀ frame ∈ outer :: frames, outer.state.Onward frame.state := by
  induction frames generalizing outer with
  | nil =>
    intro frame hmem
    rw [List.mem_singleton.mp hmem]
    exact .refl _
  | cons inner frames ih =>
    obtain ⟨hstart, hrest⟩ := List.isChain_cons_cons.mp hchain
    intro frame hmem
    rcases List.mem_cons.mp hmem with rfl | hmem
    · exact .refl _
    · exact (onward_of_mem_starts hstart).trans (ih hrest frame hmem)

end CallFrame

end ScriptTree

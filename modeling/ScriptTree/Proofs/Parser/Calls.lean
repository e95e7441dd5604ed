import Mathlib.Data.List.Chain
import ScriptTree.Parser.Phrase

/-!
Which phrases are in progress at once. A phrase in progress starts its parts one after the other,
and while one of them is in progress, so is the phrase around it. Only by going one level deeper can
more phrases be in progress than the grammar is high, and levels are limited.
-/

namespace ScriptTree

namespace ParseState

def level (state : ParseState) : Nat × Nat :=
  (state.depth, state.limit)

@[simp] theorem level_openNode (state : ParseState) : state.openNode.level = state.level :=
  rfl

@[simp] theorem level_require (state : ParseState) (condition : Bool) :
    (state.require condition).level = state.level :=
  rfl

@[simp] theorem level_demand (state : ParseState) (kind : Kind) :
    (state.demand kind).level = state.level :=
  rfl

@[simp] theorem level_report (state : ParseState) (diagnostic : Diagnostic) :
    (state.report diagnostic).level = state.level :=
  rfl

@[simp] theorem level_rewind (state : ParseState) (checkpoint : Checkpoint) :
    (state.rewind checkpoint).level = state.level :=
  rfl

@[simp] theorem level_precede (state : ParseState) (inner : Nat) :
    (state.precede inner).level = state.level :=
  rfl

@[simp] theorem level_take (state : ParseState) (field : Option Field) :
    (state.take field).level = state.level := by
  rw [take]
  split <;> rfl

@[simp] theorem level_fail (state : ParseState) (message : String) :
    (state.fail message).level = state.level := by
  rw [fail]
  split <;> rfl

@[simp] theorem level_discard (state : ParseState) : state.discard.level = state.level := by
  rw [discard]
  split <;> rfl

@[simp] theorem level_setField (state : ParseState) (outcome : Outcome) (field : Field) :
    (state.setField outcome field).level = state.level := by
  cases outcome <;> rfl

@[simp] theorem level_endNode (state : ParseState) (mark : Nat) (outcome : Outcome) :
    (state.endNode mark outcome).2.level = state.level := by
  cases outcome <;> rfl

@[simp] theorem level_skipElement (limit : Nat) (braces : Nat) (isFirst : Bool)
    (state : ParseState) : (state.skipElement braces isFirst limit).level = state.level := by
  induction limit generalizing braces isFirst state with
  | zero => rfl
  | succ limit ih =>
    unfold skipElement
    repeat' split
    all_goals simp [ih]

@[simp] theorem level_skipFailed (state : ParseState) (checkpoint : Checkpoint) :
    (state.skipFailed checkpoint).level = state.level := by
  simp only [skipFailed, level_endNode, level_skipElement, level_openNode]
  split <;> simp

end ParseState

namespace Phrase

open ParseState

variable {Rule : Type}

def Stays (step : ParseState → Outcome × ParseState) : Prop :=
  ∀ state, (step state).2.level = state.level

def loopStates (test : ParseState → Bool) (step : ParseState → Outcome × ParseState)
    (state : ParseState) : Nat → List ParseState
  | 0 => []
  | limit + 1 =>
    if test state then
      state :: match step state with
        | (.failed, _) => []
        | (_, state) => loopStates test step state limit
    else
      []

def chainStates (test : ParseState → Bool) (field : Kind → Field)
    (step : ParseState → Outcome × ParseState) (mark : Nat) (kind : Kind) (state : ParseState) :
    Nat → List ParseState
  | 0 => []
  | limit + 1 =>
    if test state then
      let state := state.setField (.node mark kind) (field state.kind)
      let outer := state.mark
      let start := state.precede mark
      let (outcome, state) := step start
      start :: match state.endNode outer outcome with
        | (.node outer kind, state) => chainStates test field step outer kind state limit
        | _ => []
    else
      []

variable {test : ParseState → Bool} {field : Kind → Field}
  {step : ParseState → Outcome × ParseState} {state : ParseState}

theorem Stays.loopWhile (h : Stays step) (limit : Nat) :
    (loopWhile test step state limit).level = state.level := by
  induction limit generalizing state with
  | zero => rfl
  | succ limit ih =>
    rw [ParseState.loopWhile]
    have hstep := h state
    split
    · split
      · next heq => rwa [heq] at hstep
      · next heq =>
        rw [heq] at hstep
        exact ih.trans hstep
    · rfl

theorem Stays.growChain (h : Stays step) (mark : Nat) (kind : Kind) (limit : Nat) :
    (growChain test field step mark kind state limit).2.level = state.level := by
  induction limit generalizing mark kind state with
  | zero => rfl
  | succ limit ih =>
    simp only [ParseState.growChain]
    split
    · have hstep := h ((state.setField (.node mark kind) (field state.kind)).precede mark)
      rw [level_precede, level_setField] at hstep
      have hend := (level_endNode _ (state.setField (.node mark kind) (field state.kind)).mark
        (step ((state.setField (.node mark kind) (field state.kind)).precede mark)).1).trans hstep
      split
      · next heq =>
        rw [heq] at hend
        exact (ih _ _).trans hend
      · next heq =>
        rw [heq] at hend
        exact hend
    · rfl

/-- Every round of a loop starts as deep as the loop. -/
theorem Stays.of_mem_loopStates (h : Stays step) {limit : Nat} {start : ParseState}
    (hmem : start ∈ loopStates test step state limit) : start.level = state.level := by
  induction limit generalizing state with
  | zero => cases hmem
  | succ limit ih =>
    rw [loopStates] at hmem
    have hstep := h state
    split at hmem
    · rcases List.mem_cons.mp hmem with rfl | hmem
      · rfl
      · split at hmem
        · cases hmem
        · next heq =>
          rw [heq] at hstep
          exact (ih hmem).trans hstep
    · cases hmem

/-- Every round of a chain starts as deep as the chain. -/
theorem Stays.of_mem_chainStates (h : Stays step) {mark : Nat} {kind : Kind} {limit : Nat}
    {start : ParseState} (hmem : start ∈ chainStates test field step mark kind state limit) :
    start.level = state.level := by
  induction limit generalizing mark kind state with
  | zero => cases hmem
  | succ limit ih =>
    rw [chainStates] at hmem
    split at hmem
    · have hstep := h ((state.setField (.node mark kind) (field state.kind)).precede mark)
      simp only [level_precede, level_setField] at hstep
      rcases List.mem_cons.mp hmem with rfl | hmem
      · simp
      · have hend := (level_endNode _ (state.setField (.node mark kind) (field state.kind)).mark
          (step ((state.setField (.node mark kind) (field state.kind)).precede mark)).1).trans hstep
        split at hmem
        · next heq =>
          rw [heq] at hend
          exact (ih hmem).trans hend
        · cases hmem
    · cases hmem

/-- A run of a phrase ends at the level at which it starts. -/
theorem Stays.run {runRule : Rule → ParseState → Outcome × ParseState}
    (h : ∀ rule, Stays (runRule rule)) (phrase : Phrase Rule) : Stays (phrase.run runRule) := by
  induction phrase with
  | seq first second ih ih' => exact fun state => (ih' _).trans (ih state)
  | both first second ih ih' =>
    intro state
    rw [Phrase.run]
    have hfirst := ih state
    split
    · next heq => rwa [heq] at hfirst
    · next heq =>
      rw [heq] at hfirst
      exact (ih' _).trans hfirst
  | branch test yes no ih ih' =>
    intro state
    rw [Phrase.run]
    split
    · exact ih state
    · exact ih' state
  | loop test body ih => exact fun state => ih.loopWhile _
  | node body ih => exact fun state => (level_endNode _ _ _).trans (ih state.openNode)
  | slot field body ih => exact fun state => (level_setField _ _ _).trans (ih state)
  | chain head test field body ih ih' =>
    intro state
    rw [Phrase.run]
    have hhead := ih state
    split
    · next heq =>
      rw [heq] at hhead
      exact (ih'.growChain _ _ _).trans hhead
    · next heq => rwa [heq] at hhead
  | look probe yes no ih ih' ih'' =>
    intro state
    have hprobe := (level_rewind (probe.run runRule state).2 state.checkpoint).trans (ih state)
    simp only [Phrase.run]
    split
    · exact (ih' _).trans hprobe
    · exact (ih'' _).trans hprobe
  | attempt body yes no ih ih' ih'' =>
    intro state
    simp only [Phrase.run]
    split
    · exact (ih' _).trans (ih state)
    · exact (ih'' _).trans ((level_rewind _ _).trans (ih state))
  | blame shape reading ih ih' =>
    intro state
    simp only [Phrase.run, level_report, level_rewind]
    exact (ih' _).trans ((level_rewind _ _).trans (ih state))
  | recover element ih =>
    intro state
    simp only [Phrase.run]
    split
    · exact ih state
    · exact (level_skipFailed _ _).trans (ih state)
  | absorb body ih => exact fun state => ih state
  | nested body ih =>
    intro state
    simp only [Phrase.run]
    split
    · rfl
    · obtain ⟨hdepth, hlimit⟩ := Prod.mk.inj (ih { state with depth := state.depth + 1 })
      simp only [level, hdepth, hlimit, Nat.add_sub_cancel]
  | call rule => exact fun state => h rule state
  | expect kind field =>
    intro state
    rw [Phrase.run]
    split <;> simp
  | close kind =>
    intro state
    rw [Phrase.run]
    split <;> simp
  | relex mode => exact fun _ => rfl
  | _ => exact fun state => by simp [Phrase.run]

theorem stays_runRule (grammar : Rule → Phrase Rule) (budget : Nat) (rule : Rule) :
    Stays (runRule grammar budget rule) := by
  induction budget generalizing rule with
  | zero => exact fun _ => rfl
  | succ budget ih => exact Stays.run ih (grammar rule)

end Phrase

/-- A phrase in progress: how many rules it can start one inside the other, and the state in which
it was started. -/
structure CallFrame (Rule : Type) where
  budget : Nat
  phrase : Phrase Rule
  state : ParseState

namespace CallFrame

open Phrase ParseState

variable {Rule : Type}

def starts (grammar : Rule → Phrase Rule) (frame : CallFrame Rule) : List (CallFrame Rule) :=
  let state := frame.state
  let inside (phrase : Phrase Rule) (state : ParseState) : CallFrame Rule :=
    ⟨frame.budget, phrase, state⟩
  let run (phrase : Phrase Rule) := phrase.run (runRule grammar frame.budget)
  match frame.phrase with
  | .seq first second => [inside first state, inside second (run first state).2]
  | .both first second =>
    inside first state :: match run first state with
      | (.failed, _) => []
      | (_, state) => [inside second state]
  | .branch test yes no => [inside (if test.holds state then yes else no) state]
  | .loop test body =>
    (loopStates (fun state => test.holds state) (run body) state state.rounds).map (inside body)
  | .node body => [inside body state.openNode]
  | .slot _ body | .recover body | .absorb body => [inside body state]
  | .chain head test field body =>
    inside head state :: match run head state with
      | (.node mark kind, state) =>
        (chainStates (fun state => test.holds state) field (run body) mark kind state
          state.rounds).map (inside body)
      | _ => []
  | .look probe yes no =>
    let (outcome, after) := run probe state
    let isClean := after.isClean state.checkpoint outcome
    [inside probe state, inside (if isClean then yes else no) (after.rewind state.checkpoint)]
  | .attempt body yes no =>
    let (outcome, after) := run body state
    [inside body state,
     if after.isClean state.checkpoint outcome then inside yes after
     else inside no (after.rewind state.checkpoint)]
  | .blame shape reading =>
    [inside shape state, inside reading ((run shape state).2.rewind state.checkpoint)]
  | .nested body =>
    if state.limit ≤ state.depth then [] else [inside body { state with depth := state.depth + 1 }]
  | .call rule =>
    match frame.budget with
    | 0 => []
    | budget + 1 => [⟨budget, grammar rule, state⟩]
  | _ => []

def descend (grammar : Rule → Phrase Rule) (frame : CallFrame Rule) :
    List Nat → List (CallFrame Rule)
  | [] => [frame]
  | choice :: path =>
    match (frame.starts grammar)[choice]? with
    | none => [frame]
    | some inner => frame :: inner.descend grammar path

theorem head?_descend (grammar : Rule → Phrase Rule) (frame : CallFrame Rule) (path : List Nat) :
    (frame.descend grammar path).head? = some frame := by
  cases path with
  | nil => rfl
  | cons choice path =>
    rw [descend]
    split <;> rfl

/-- Each phrase on the way down is started by the one before it. -/
theorem isChain_descend (grammar : Rule → Phrase Rule) (frame : CallFrame Rule) (path : List Nat) :
    (frame.descend grammar path).IsChain fun outer inner => inner ∈ outer.starts grammar := by
  induction path generalizing frame with
  | nil => exact List.isChain_singleton _
  | cons choice path ih =>
    rw [descend]
    split
    · exact List.isChain_singleton _
    · next inner hinner =>
      refine List.isChain_cons.mpr ⟨?_, ih inner⟩
      intro next hnext
      rw [head?_descend] at hnext
      obtain rfl := Option.some.inj hnext
      exact List.mem_of_getElem? hinner

end CallFrame

namespace Phrase

variable {Rule : Type} (counted : Phrase Rule → Bool) (calls : Rule → Nat)

def load : Phrase Rule → Nat
  | .seq first second => (counted (.seq first second)).toNat + max first.load second.load
  | .both first second => (counted (.both first second)).toNat + max first.load second.load
  | .branch test yes no => (counted (.branch test yes no)).toNat + max yes.load no.load
  | .loop test body => (counted (.loop test body)).toNat + body.load
  | .node body => (counted (.node body)).toNat + body.load
  | .slot field body => (counted (.slot field body)).toNat + body.load
  | .recover body => (counted (.recover body)).toNat + body.load
  | .absorb body => (counted (.absorb body)).toNat + body.load
  | .chain head test field body =>
    (counted (.chain head test field body)).toNat + max head.load body.load
  | .look probe yes no =>
    (counted (.look probe yes no)).toNat + max probe.load (max yes.load no.load)
  | .attempt body yes no =>
    (counted (.attempt body yes no)).toNat + max body.load (max yes.load no.load)
  | .blame shape reading => (counted (.blame shape reading)).toNat + max shape.load reading.load
  | .call rule => (counted (.call rule)).toNat + calls rule
  | phrase => (counted phrase).toNat

def keepsLoad (bound : Nat) : Phrase Rule → Bool
  | .nested body => body.load counted calls ≤ bound && body.keepsLoad bound
  | .seq first second | .both first second | .branch _ first second | .blame first second
  | .chain first _ _ second => first.keepsLoad bound && second.keepsLoad bound
  | .look first second third | .attempt first second third =>
    first.keepsLoad bound && second.keepsLoad bound && third.keepsLoad bound
  | .loop _ body | .node body | .slot _ body | .recover body | .absorb body => body.keepsLoad bound
  | _ => true

end Phrase

def Phrase.isCall {Rule : Type} : Phrase Rule → Bool
  | .call _ => true
  | _ => false

structure Loads {Rule : Type} (grammar : Rule → Phrase Rule) (counted : Phrase Rule → Bool) where
  calls : Rule → Nat
  bound : Nat
  rules : ∀ rule, ((grammar rule).load counted calls ≤ calls rule &&
    (grammar rule).keepsLoad counted calls bound) = true

namespace Loads

open Phrase ParseState

variable {Rule : Type} {grammar : Rule → Phrase Rule} {counted : Phrase Rule → Bool}
  {loads : Loads grammar counted} {outer inner : CallFrame Rule}

def reserve (loads : Loads grammar counted) (frame : CallFrame Rule) : Nat :=
  frame.phrase.load counted loads.calls + loads.bound * (frame.state.limit - frame.state.depth)

structure Holds (loads : Loads grammar counted) (frame : CallFrame Rule) : Prop where
  keeps : frame.phrase.keepsLoad counted loads.calls loads.bound = true
  depth : frame.state.depth ≤ frame.state.limit

structure Spends (loads : Loads grammar counted) (outer inner : CallFrame Rule) : Prop where
  holds : loads.Holds inner
  reserve : loads.reserve inner + (counted outer.phrase).toNat ≤ loads.reserve outer
  limit : inner.state.limit = outer.state.limit
  budget : inner.budget + outer.phrase.isCall.toNat = outer.budget

/-- Starting a part of a phrase at the same level. -/
theorem Spends.of_level (h : loads.Holds outer)
    (hbudget : inner.budget + outer.phrase.isCall.toNat = outer.budget)
    (hlevel : inner.state.level = outer.state.level)
    (hkeeps : inner.phrase.keepsLoad counted loads.calls loads.bound = true)
    (hload : inner.phrase.load counted loads.calls + (counted outer.phrase).toNat ≤
      outer.phrase.load counted loads.calls) : loads.Spends outer inner := by
  obtain ⟨hdepth, hlimit⟩ := Prod.mk.inj hlevel
  refine ⟨⟨hkeeps, ?_⟩, ?_, hlimit, hbudget⟩
  · rw [hdepth, hlimit]
    exact h.depth
  · rw [Loads.reserve, Loads.reserve, hdepth, hlimit]
    omega

/-- Whatever a phrase in progress starts, it pays for the phrase itself out of its reserve. -/
theorem spends_of_mem (h : loads.Holds outer) (hin : inner ∈ outer.starts grammar) :
    loads.Spends outer inner := by
  obtain ⟨budget, phrase, state⟩ := outer
  have hstays := Stays.run (stays_runRule grammar budget)
  have hkeeps := h.keeps
  cases phrase with
  | seq first second =>
    simp only [keepsLoad, Bool.and_eq_true] at hkeeps
    simp only [CallFrame.starts, List.mem_cons, List.not_mem_nil, or_false] at hin
    rcases hin with rfl | rfl
    · exact .of_level h rfl rfl hkeeps.1 (by simp only [load]; omega)
    · exact .of_level h rfl (hstays first state) hkeeps.2 (by simp only [load]; omega)
  | both first second =>
    simp only [keepsLoad, Bool.and_eq_true] at hkeeps
    simp only [CallFrame.starts, List.mem_cons] at hin
    rcases hin with rfl | hin
    · exact .of_level h rfl rfl hkeeps.1 (by simp only [load]; omega)
    · -- what follows starts as deep as the whole, since the first phrase has come back to its depth
      have hfirst := hstays first state
      split at hin
      · cases hin
      · next heq =>
        rw [heq] at hfirst
        obtain rfl := List.mem_singleton.mp hin
        exact .of_level h rfl hfirst hkeeps.2 (by simp only [load]; omega)
  | branch test yes no =>
    simp only [keepsLoad, Bool.and_eq_true] at hkeeps
    simp only [CallFrame.starts, List.mem_singleton] at hin
    subst hin
    split
    · exact .of_level h rfl rfl hkeeps.1 (by simp only [load]; omega)
    · exact .of_level h rfl rfl hkeeps.2 (by simp only [load]; omega)
  | loop test body =>
    simp only [CallFrame.starts, List.mem_map] at hin
    obtain ⟨start, hstart, rfl⟩ := hin
    exact .of_level h rfl ((hstays body).of_mem_loopStates hstart) hkeeps
      (by simp only [load]; omega)
  | chain head test field body =>
    simp only [keepsLoad, Bool.and_eq_true] at hkeeps
    simp only [CallFrame.starts, List.mem_cons] at hin
    rcases hin with rfl | hin
    · exact .of_level h rfl rfl hkeeps.1 (by simp only [load]; omega)
    · have hhead := hstays head state
      split at hin
      · next heq =>
        rw [heq] at hhead
        obtain ⟨start, hstart, rfl⟩ := List.mem_map.mp hin
        exact .of_level h rfl (((hstays body).of_mem_chainStates hstart).trans hhead) hkeeps.2
          (by simp only [load]; omega)
      · cases hin
  | look probe yes no =>
    simp only [keepsLoad, Bool.and_eq_true] at hkeeps
    simp only [CallFrame.starts, List.mem_cons, List.not_mem_nil, or_false] at hin
    have hprobe :=
      (level_rewind (probe.run (runRule grammar budget) state).2 state.checkpoint).trans
        (hstays probe state)
    rcases hin with rfl | rfl
    · exact .of_level h rfl rfl hkeeps.1.1 (by simp only [load]; omega)
    · split
      · exact .of_level h rfl hprobe hkeeps.1.2 (by simp only [load]; omega)
      · exact .of_level h rfl hprobe hkeeps.2 (by simp only [load]; omega)
  | attempt body yes no =>
    simp only [keepsLoad, Bool.and_eq_true] at hkeeps
    simp only [CallFrame.starts, List.mem_cons, List.not_mem_nil, or_false] at hin
    have hbody := hstays body state
    rcases hin with rfl | rfl
    · exact .of_level h rfl rfl hkeeps.1.1 (by simp only [load]; omega)
    · split
      · exact .of_level h rfl hbody hkeeps.1.2 (by simp only [load]; omega)
      · exact .of_level h rfl ((level_rewind _ _).trans hbody) hkeeps.2 (by simp only [load]; omega)
  | blame shape reading =>
    simp only [keepsLoad, Bool.and_eq_true] at hkeeps
    simp only [CallFrame.starts, List.mem_cons, List.not_mem_nil, or_false] at hin
    rcases hin with rfl | rfl
    · exact .of_level h rfl rfl hkeeps.1 (by simp only [load]; omega)
    · exact .of_level h rfl ((level_rewind _ _).trans (hstays shape state)) hkeeps.2
        (by simp only [load]; omega)
  | nested body =>
    simp only [keepsLoad, Bool.and_eq_true, decide_eq_true_eq] at hkeeps
    simp only [CallFrame.starts] at hin
    split at hin
    · cases hin
    · next hroom =>
      -- the level that is entered pays for all that is started in it
      obtain rfl := List.mem_singleton.mp hin
      have hlevels : state.limit - state.depth = state.limit - (state.depth + 1) + 1 := by omega
      refine ⟨⟨hkeeps.2, Nat.succ_le_of_lt (Nat.not_le.mp hroom)⟩, ?_, rfl, rfl⟩
      simp only [Loads.reserve, load, hlevels, Nat.mul_add, Nat.mul_one]
      omega
  | call rule =>
    simp only [CallFrame.starts] at hin
    split at hin
    · cases hin
    · obtain rfl := List.mem_singleton.mp hin
      have hrule := loads.rules rule
      simp only [Bool.and_eq_true, decide_eq_true_eq] at hrule
      exact .of_level h rfl rfl hrule.2 (by simp only [load]; omega)
  | node body | slot field body | recover body | absorb body =>
    simp only [CallFrame.starts, List.mem_singleton] at hin
    subst hin
    exact .of_level h rfl rfl hkeeps (by simp only [load]; omega)
  | _ => cases hin

theorem counted_le_load (loads : Loads grammar counted) (phrase : Phrase Rule) :
    (counted phrase).toNat ≤ phrase.load counted loads.calls := by
  cases phrase <;> simp [load]

/-- Phrases that are in progress at once: each starts the next one. -/
theorem holds_of_chain {frames : List (CallFrame Rule)} (h : loads.Holds outer)
    (hchain : (outer :: frames).IsChain fun outer inner => inner ∈ outer.starts grammar) :
    (outer :: frames).countP (fun frame => counted frame.phrase) ≤ loads.reserve outer ∧
      ∀ frame ∈ outer :: frames, loads.Holds frame ∧ frame.state.limit = outer.state.limit := by
  induction frames generalizing outer with
  | nil =>
    refine ⟨?_, ?_⟩
    · have hcounted := loads.counted_le_load outer.phrase
      rw [List.countP_singleton]
      simp only [Loads.reserve]
      cases hc : counted outer.phrase <;> rw [hc] at hcounted <;> simp at hcounted ⊢
      omega
    · intro frame hmem
      obtain rfl := List.mem_singleton.mp hmem
      exact ⟨h, rfl⟩
  | cons inner frames ih =>
    obtain ⟨hstart, hrest⟩ := List.isChain_cons_cons.mp hchain
    obtain ⟨hholds, hreserve, hlimit, -⟩ := spends_of_mem h hstart
    obtain ⟨hcount, hall⟩ := ih hholds hrest
    refine ⟨?_, ?_⟩
    · rw [List.countP_cons]
      cases hc : counted outer.phrase <;> rw [hc] at hreserve <;> simp at hreserve ⊢ <;> omega
    · intro frame hmem
      rcases List.mem_cons.mp hmem with rfl | hmem
      · exact ⟨h, rfl⟩
      · obtain ⟨hframe, hsame⟩ := hall frame hmem
        exact ⟨hframe, hsame.trans hlimit⟩

/-- A budget that covers the reserve of calls covers that of whatever is started. -/
theorem affords_of_chain {loads : Loads grammar isCall} {frames : List (CallFrame Rule)}
    (h : loads.Holds outer) (hbudget : loads.reserve outer ≤ outer.budget)
    (hchain : (outer :: frames).IsChain fun outer inner => inner ∈ outer.starts grammar) :
    ∀ frame ∈ outer :: frames, loads.reserve frame ≤ frame.budget := by
  induction frames generalizing outer with
  | nil =>
    intro frame hmem
    obtain rfl := List.mem_singleton.mp hmem
    exact hbudget
  | cons inner frames ih =>
    obtain ⟨hstart, hrest⟩ := List.isChain_cons_cons.mp hchain
    obtain ⟨hholds, hreserve, -, hspent⟩ := spends_of_mem h hstart
    intro frame hmem
    rcases List.mem_cons.mp hmem with rfl | hmem
    · exact hbudget
    · exact ih hholds (by omega) hrest frame hmem

/-- So it is not used up. -/
theorem budget_of_chain {loads : Loads grammar isCall} {frames : List (CallFrame Rule)}
    (h : loads.Holds outer) (hbudget : loads.reserve outer ≤ outer.budget)
    (hchain : (outer :: frames).IsChain fun outer inner => inner ∈ outer.starts grammar) :
    ∀ frame ∈ outer :: frames, frame.phrase.isCall = true → frame.budget ≠ 0 := by
  intro frame hmem hcall
  have hreserve := affords_of_chain h hbudget hchain frame hmem
  have hcounted := loads.counted_le_load frame.phrase
  rw [hcall, Bool.toNat_true] at hcounted
  rw [Loads.reserve] at hreserve
  omega

end Loads

end ScriptTree

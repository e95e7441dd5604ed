import ScriptTree.Parser.Phrase

/-!
Runs with marks of 32 bits. The mark of a node is the number of the event at which it begins. A run
here is that of `Phrase.run`, but there is none where a node would begin at an event whose number
has more than 32 bits. The distance from a node to one that is begun in front of it later is the
difference of their marks, so it has no more bits than they have.
-/

namespace ScriptTree

namespace ParseState

def hasMark (state : ParseState) : Bool :=
  state.mark < UInt32.size

def openNode? (state : ParseState) : Option ParseState :=
  if state.hasMark then some state.openNode else none

def precede? (state : ParseState) (inner : Nat) : Option ParseState :=
  if state.hasMark then some (state.precede inner) else none

-- The error node begins where the element began.
def skipFailed? (state : ParseState) (checkpoint : Checkpoint) : Option ParseState :=
  if (state.rewind checkpoint).hasMark then some (state.skipFailed checkpoint) else none

def loopWhile? (test : ParseState → Bool) (step : ParseState → Option (Outcome × ParseState))
    (state : ParseState) : Nat → Option ParseState
  | 0 => some state
  | limit + 1 =>
    if test state then do
      match ← step state with
      | (.failed, state) => some state
      | (_, state) => loopWhile? test step state limit
    else
      some state

def growChain? (test : ParseState → Bool) (field : Kind → Field)
    (step : ParseState → Option (Outcome × ParseState)) (mark : Nat) (kind : Kind)
    (state : ParseState) : Nat → Option (Outcome × ParseState)
  | 0 => some (.node mark kind, state)
  | limit + 1 =>
    if test state then do
      let state := state.setField (.node mark kind) (field state.kind)
      let outer := state.mark
      let (outcome, state) ← step (← state.precede? mark)
      match state.endNode outer outcome with
      | (.node outer kind, state) => growChain? test field step outer kind state limit
      | (_, state) => some (.node mark kind, state.require false)
    else
      some (.node mark kind, state)

end ParseState

namespace Phrase

open ParseState

variable {Rule : Type}

/-- Runs a phrase, given how rules are run, as long as all marks have 32 bits. -/
def run? (runRule : Rule → ParseState → Option (Outcome × ParseState)) :
    Phrase Rule → ParseState → Option (Outcome × ParseState)
  | .seq first second, state => do
    let (_, state) ← first.run? runRule state
    second.run? runRule state
  | .both first second, state => do
    match ← first.run? runRule state with
    | (.failed, state) => some (.failed, state)
    | (_, state) => second.run? runRule state
  | .branch test yes no, state =>
    if test.holds state then yes.run? runRule state else no.run? runRule state
  | .loop test body, state => do
    let state ← loopWhile? (fun state => test.holds state) (body.run? runRule) state state.rounds
    some (.done, state)
  | .node body, state => do
    let (outcome, after) ← body.run? runRule (← state.openNode?)
    some (after.endNode state.mark outcome)
  | .slot field body, state => do
    let (outcome, state) ← body.run? runRule state
    some (outcome, state.setField outcome (field state.kind))
  | .chain head test field body, state => do
    match ← head.run? runRule state with
    | (.node mark kind, state) =>
      growChain? (fun state => test.holds state) field (body.run? runRule) mark kind state
        state.rounds
    | (_, state) => some (.failed, state)
  | .look probe yes no, state => do
    let (outcome, after) ← probe.run? runRule state
    let isClean := after.isClean state.checkpoint outcome
    let state := after.rewind state.checkpoint
    if isClean then yes.run? runRule state else no.run? runRule state
  | .attempt body yes no, state => do
    let (outcome, after) ← body.run? runRule state
    if after.isClean state.checkpoint outcome then yes.run? runRule after
    else no.run? runRule (after.rewind state.checkpoint)
  | .blame shape reading, state => do
    let checkpoint := state.checkpoint
    let (_, state) ← shape.run? runRule state
    let span := state.current.span
    let (_, state) ← reading.run? runRule (state.rewind checkpoint)
    let reason := state.firstReportSince checkpoint
    some (.done, (state.rewind checkpoint).report (ambiguity span reason))
  | .recover element, state => do
    let checkpoint := state.checkpoint
    let (_, state) ← element.run? runRule state
    if state.failures = checkpoint.failures then some (.done, state)
    else
      let skipped ← state.skipFailed? checkpoint
      some (.done, skipped)
  | .absorb body, state => do
    let (outcome, after) ← body.run? runRule state
    some (outcome, { after with failures := state.failures })
  | .nested body, state =>
    if state.limit ≤ state.depth then
      let message := "nesting exceeds the limit of " ++ toString state.limit ++ " levels"
      some (.failed, state.failWith .tooDeep message)
    else do
      let (outcome, state) ← body.run? runRule { state with depth := state.depth + 1 }
      some (outcome, { state with depth := state.depth - 1 })
  | .call rule, state => runRule rule state
  -- all other phrases take one step, in which no node begins
  | step, state => some (step.run (fun _ state => (.failed, state)) state)

/-- Runs a rule of a grammar with a budget for the rules in progress, as long as all marks have 32
bits. -/
def runRule? (grammar : Rule → Phrase Rule) :
    Nat → Rule → ParseState → Option (Outcome × ParseState)
  | 0, _, state => some (.failed, state)
  | budget + 1, rule, state => (grammar rule).run? (runRule? grammar budget) state

end Phrase

end ScriptTree

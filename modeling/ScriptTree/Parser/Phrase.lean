import ScriptTree.Parser.State

/-!
Phrases: the language in which the grammar is written, and its meaning.

A phrase takes tokens, opens nodes, reports what is missing, looks ahead and tries readings. Phrases
are data, so what holds of all of them is proved by one induction, and what holds of the grammar can
be computed on it. Named phrases refer to each other by rule; running a rule takes a budget, which
bounds how many rules can be in progress at once.
-/

namespace ScriptTree

/-- A question about the tokens to come. Distances count tokens after the lookahead, which are read
as ordinary ones. -/
inductive Test where
  /-- The token at a distance has one of the kinds. -/
  | peek (distance : Nat) (kinds : KindSet)
  /-- The lookahead is a name, and one of the words in small letters up to case. -/
  | word (words : List String)
  /-- A label starts here: names joined by points, and a colon. -/
  | label
  /-- No layout stands between the lookahead and the next token. -/
  | glued
  | not (test : Test)
  | and (first second : Test)
  | or (first second : Test)
  deriving Repr, Inhabited

namespace Test

def sees (kind : Kind) : Test :=
  .peek 0 (.single kind)

def seesAny (kinds : List Kind) : Test :=
  .peek 0 (.ofList kinds)

def next (kind : Kind) : Test :=
  .peek 1 (.single kind)

def labelTail (lexer : Lexer) : Nat → Bool
  | 0 => false
  | limit + 1 =>
    match lexer.current.kind with
    | .dot => lexer.advance.current.kind == .name && labelTail lexer.advance.advance limit
    | kind => kind == .colon

def holds (state : ParseState) : Test → Bool
  | .peek distance kinds => kinds.contains (state.lexer.ahead distance).kind
  | .word words => state.kind == .name && words.contains (Text.lower state.current.text)
  | .label => state.kind == .name && labelTail state.lexer.advance state.rounds
  | .glued => state.current.trailing.isEmpty
  | .not test => !test.holds state
  | .and first second => first.holds state && second.holds state
  | .or first second => first.holds state || second.holds state

end Test

inductive Outcome where
  /-- It did not fit. -/
  | failed
  /-- It fits. -/
  | done
  /-- The node around it is to be completed with this kind. -/
  | chose (kind : Kind)
  /-- It is the completed node that was begun at event number `mark`. -/
  | node (mark : Nat) (kind : Kind)
  deriving DecidableEq, Repr, Inhabited

def Outcome.fits : Outcome → Bool
  | .failed => false
  | _ => true

/-- A phrase over the rules of a grammar. -/
inductive Phrase (Rule : Type) where
  /-- Nothing; it always fits. -/
  | done
  /-- Nothing; it never fits. -/
  | reject
  /-- Takes the lookahead, whatever it is, unless the text is at its end. -/
  | take (field : Option Field)
  /-- Takes a token of the kind, or fails at what is there instead. -/
  | expect (kind : Kind) (field : Option Field)
  /-- Takes the delimiter that closes a body. If it is missing, that is reported but no failure. -/
  | close (kind : Kind)
  /-- Fails for want of something at the lookahead. -/
  | missing (what : String)
  /-- Fails at the lookahead with a message. -/
  | refuse (message : String)
  /-- States that the lookahead has the kind; anything else breaks a rule of use. -/
  | demand (kind : Kind)
  /-- Reads the lookahead again in another mode. -/
  | relex (mode : LexMode)
  /-- One phrase after the other, whether the first fits or not. -/
  | seq (first second : Phrase Rule)
  /-- The second phrase only if the first fits. -/
  | both (first second : Phrase Rule)
  /-- One of two phrases, as a test says. -/
  | branch (test : Test) (yes no : Phrase Rule)
  /-- A phrase again and again, while a test holds and the phrase fits. -/
  | loop (test : Test) (body : Phrase Rule)
  /-- Settles the kind of the node around. -/
  | choose (kind : Kind)
  /-- A node around the phrase, if the phrase settles its kind; otherwise no node. -/
  | node (body : Phrase Rule)
  /-- The node of a phrase, put into a slot that may depend on the token after it. -/
  | slot (field : Kind → Field) (body : Phrase Rule)
  /-- A node, and while a test holds a further node around it and the body: the node so far goes
  into a slot that may depend on the token after it, and the body settles the kind of the new
  node. -/
  | chain (head : Phrase Rule) (test : Test) (field : Kind → Field) (body : Phrase Rule)
  /-- Goes on with one of two phrases, as a probe fits here without failure or not. The probe
  leaves nothing behind. -/
  | look (probe yes no : Phrase Rule)
  /-- Tries a phrase. If it fits without failure, the first phrase follows; otherwise it is taken
  back and the second phrase stands in its place. -/
  | attempt (body yes no : Phrase Rule)
  /-- Reports that no reading fits: the lookahead behind the shape is blamed, and the first
  complaint of the reading is given as the reason. Neither leaves anything else behind. -/
  | blame (shape reading : Phrase Rule)
  /-- An element of a repeated context. If it leaves failures, it is taken back except for its first
  report, and its tokens are skipped as an error node. -/
  | recover (element : Phrase Rule)
  /-- A phrase whose failures are taken back while all else is kept. -/
  | absorb (body : Phrase Rule)
  /-- A phrase one level deeper, or a failure at the limit of nesting. -/
  | nested (body : Phrase Rule)
  /-- The phrase of a rule. -/
  | call (rule : Rule)

namespace ParseState

def loopWhile (test : ParseState → Bool) (step : ParseState → Outcome × ParseState)
    (state : ParseState) : Nat → ParseState
  | 0 => state
  | limit + 1 =>
    if test state then
      match step state with
      | (.failed, state) => state
      | (_, state) => loopWhile test step state limit
    else
      state

/-- Ends the node that was begun at `mark`: it is completed if its kind is settled, and abandoned
otherwise. -/
def endNode (state : ParseState) (mark : Nat) (outcome : Outcome) : Outcome × ParseState :=
  match outcome with
  | .chose kind =>
    let state := state.require (state.events.startsAt mark)
    (.node mark kind, { state with events := state.events.complete mark kind })
  | _ =>
    let state := state.require (state.events.isBlankAt mark)
    (.failed, { state with events := state.events.abandon mark })

def openNode (state : ParseState) : ParseState :=
  { state with events := state.events.openNode }

def precede (state : ParseState) (inner : Nat) : ParseState :=
  let state := state.require (state.events.startsAt inner)
  { state with events := state.events.precede inner }

def setField (state : ParseState) (outcome : Outcome) (field : Field) : ParseState :=
  match outcome with
  | .node mark _ =>
    let state := state.require (state.events.startsAt mark)
    { state with events := state.events.setField mark field }
  | _ => state

/-- Wraps nodes around the node at `mark` while a test holds, for at most `limit` rounds. A step
that settles no kind breaks a rule of use, since the node at `mark` has then given up its place. -/
def growChain (test : ParseState → Bool) (field : Kind → Field)
    (step : ParseState → Outcome × ParseState) (mark : Nat) (kind : Kind) (state : ParseState) :
    Nat → Outcome × ParseState
  | 0 => (.node mark kind, state)
  | limit + 1 =>
    if test state then
      let state := state.setField (.node mark kind) (field state.kind)
      let outer := state.mark
      let (outcome, state) := step (state.precede mark)
      match state.endNode outer outcome with
      | (.node outer kind, state) => growChain test field step outer kind state limit
      | (_, state) => (.node mark kind, state.require false)
    else
      (.node mark kind, state)

/-- Whether an attempt since a checkpoint came out without failure. -/
def isClean (state : ParseState) (checkpoint : Checkpoint) (outcome : Outcome) : Bool :=
  outcome.fits && state.failures == checkpoint.failures

def ambiguity (span : Span) (reason : Option Diagnostic) : Diagnostic :=
  let message := "declaration is neither a method nor a field"
  { kind := .ambiguous
    message := match reason with
      | none => message
      | some reason => message ++ ": " ++ reason.message
    span }

/-- Puts an error node in place of an element that failed. Of its reports the first is kept. -/
def skipFailed (state : ParseState) (checkpoint : Checkpoint) : ParseState :=
  let first := state.firstReportSince checkpoint
  let state := state.rewind checkpoint
  let state := match first with
    | none => state
    | some first => state.report first
  let rounds := state.rounds
  let state := state.openNode.skipElement 0 true rounds
  (state.endNode checkpoint.events (.chose .error)).2

end ParseState

namespace Phrase

open ParseState

variable {Rule : Type}

def run (runRule : Rule → ParseState → Outcome × ParseState) :
    Phrase Rule → ParseState → Outcome × ParseState
  | .done, state => (.done, state)
  | .reject, state => (.failed, state)
  | .take field, state => (.done, state.take field)
  | .expect kind field, state =>
    if state.kind = kind then (.done, state.take field)
    else (.failed, state.fail (state.missing kind.describe))
  | .close kind, state =>
    if state.kind = kind then (.done, state.take none)
    else (.done, state.report ⟨.structural, state.missing kind.describe, state.current.span⟩)
  | .missing what, state => (.failed, state.fail (state.missing what))
  | .refuse message, state => (.failed, state.fail message)
  | .demand kind, state => (.done, state.demand kind)
  | .relex mode, state => (.done, { state with lexer := state.lexer.relex mode })
  | .seq first second, state => second.run runRule (first.run runRule state).2
  | .both first second, state =>
    match first.run runRule state with
    | (.failed, state) => (.failed, state)
    | (_, state) => second.run runRule state
  | .branch test yes no, state =>
    if test.holds state then yes.run runRule state else no.run runRule state
  | .loop test body, state =>
    (.done, loopWhile (fun state => test.holds state) (body.run runRule) state state.rounds)
  | .choose kind, state => (.chose kind, state)
  | .node body, state =>
    let mark := state.mark
    let (outcome, state) := body.run runRule state.openNode
    state.endNode mark outcome
  | .slot field body, state =>
    let (outcome, state) := body.run runRule state
    (outcome, state.setField outcome (field state.kind))
  | .chain head test field body, state =>
    match head.run runRule state with
    | (.node mark kind, state) =>
      growChain (fun state => test.holds state) field (body.run runRule) mark kind state
        state.rounds
    | (_, state) => (.failed, state)
  | .look probe yes no, state =>
    let checkpoint := state.checkpoint
    let (outcome, state) := probe.run runRule state
    let isClean := state.isClean checkpoint outcome
    let state := state.rewind checkpoint
    if isClean then yes.run runRule state else no.run runRule state
  | .attempt body yes no, state =>
    let checkpoint := state.checkpoint
    let (outcome, state) := body.run runRule state
    if state.isClean checkpoint outcome then yes.run runRule state
    else no.run runRule (state.rewind checkpoint)
  | .blame shape reading, state =>
    let checkpoint := state.checkpoint
    let state := (shape.run runRule state).2
    let span := state.current.span
    let state := (reading.run runRule (state.rewind checkpoint)).2
    let reason := state.firstReportSince checkpoint
    (.done, (state.rewind checkpoint).report (ambiguity span reason))
  | .recover element, state =>
    let checkpoint := state.checkpoint
    let state := (element.run runRule state).2
    if state.failures = checkpoint.failures then (.done, state)
    else (.done, state.skipFailed checkpoint)
  | .absorb body, state =>
    let failures := state.failures
    let (outcome, state) := body.run runRule state
    (outcome, { state with failures })
  | .nested body, state =>
    if state.limit ≤ state.depth then
      let message := "nesting exceeds the limit of " ++ toString state.limit ++ " levels"
      (.failed, state.failWith .tooDeep message)
    else
      let (outcome, state) := body.run runRule { state with depth := state.depth + 1 }
      (outcome, { state with depth := state.depth - 1 })
  | .call rule, state => runRule rule state

/-- Runs a rule of a grammar with a budget for the rules in progress. Without budget left a rule
does not fit. -/
def runRule (grammar : Rule → Phrase Rule) : Nat → Rule → ParseState → Outcome × ParseState
  | 0, _, state => (.failed, state)
  | budget + 1, rule, state => (grammar rule).run (runRule grammar budget) state

end Phrase

end ScriptTree

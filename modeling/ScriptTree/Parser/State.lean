import ScriptTree.Diagnostic
import ScriptTree.Lexer
import ScriptTree.Parser.Describe
import ScriptTree.Parser.Event

/-!
The state of a parse, and what can be done to it: take tokens, report, and go back to an earlier
state.

A report usually counts as a failure. Failures are how a construct tells the one around it that it
did not fit; the contexts that repeat an element take failures back once they have dealt with them.
-/

namespace ScriptTree

/-- The state of a parse: the lexer, the events and reports so far, the failures that nobody has
dealt with, and how deep constructs are nested. `limit` bounds that depth, and `size` is the number
of bytes of the text. `misused` says that a rule of use was broken: a mark did not stand for a node,
or a construct was read where it cannot stand. -/
structure ParseState where
  lexer : Lexer
  events : Events
  diagnostics : Array Diagnostic
  failures : Nat
  depth : Nat
  limit : Nat
  size : Nat
  misused : Bool
  deriving DecidableEq, Repr, Inhabited

/-- What is kept of a state to go back to it. Events and reports only grow, so their numbers are
enough. -/
structure Checkpoint where
  lexer : Lexer
  events : Nat
  diagnostics : Nat
  failures : Nat
  deriving DecidableEq, Repr, Inhabited

namespace ParseState

def ofText (text : String) (limit : Nat) : ParseState :=
  { lexer := Lexer.ofText text
    events := #[]
    diagnostics := #[]
    failures := 0
    depth := 0
    limit
    size := text.utf8ByteSize
    misused := false }

def current (state : ParseState) : Token :=
  state.lexer.current

def kind (state : ParseState) : Kind :=
  state.current.kind

def rounds (state : ParseState) : Nat :=
  state.size - state.lexer.start.offset + 1

def mark (state : ParseState) : Nat :=
  state.events.size

/-- Notes that a rule of use is broken unless the condition holds. -/
def require (state : ParseState) (condition : Bool) : ParseState :=
  { state with misused := state.misused || !condition }

/-- Notes that a rule of use is broken unless the lookahead has the kind. -/
def demand (state : ParseState) (kind : Kind) : ParseState :=
  state.require (state.kind == kind)

/-- Takes the lookahead, whatever it is. -/
def push (state : ParseState) (field : Option Field) : ParseState :=
  { state with
    events := state.events.push (.token state.lexer.current field)
    lexer := state.lexer.advance }

/-- Takes the lookahead unless the text is at its end. -/
def take (state : ParseState) (field : Option Field) : ParseState :=
  if state.kind = .eof then state else state.push field

def found (state : ParseState) : String :=
  if state.kind = .eof then "end of file" else Kind.backquoted state.current.text

def report (state : ParseState) (diagnostic : Diagnostic) : ParseState :=
  { state with diagnostics := state.diagnostics.push diagnostic }

def failWith (state : ParseState) (kind : DiagnosticKind) (message : String) : ParseState :=
  let state := state.report ⟨kind, message, state.current.span⟩
  { state with failures := state.failures + 1 }

/-- Fails at the lookahead. A character that makes no token is itself what is wrong. -/
def fail (state : ParseState) (message : String) : ParseState :=
  if state.kind = .unknown then
    state.failWith .lexical ("unknown character " ++ Kind.backquoted state.current.text)
  else
    state.failWith .structural message

def missing (state : ParseState) (what : String) : String :=
  "expected " ++ what ++ ", found " ++ state.found

def checkpoint (state : ParseState) : Checkpoint :=
  { lexer := state.lexer
    events := state.mark
    diagnostics := state.diagnostics.size
    failures := state.failures }

def rewind (state : ParseState) (checkpoint : Checkpoint) : ParseState :=
  { state with
    lexer := checkpoint.lexer
    events := state.events.shrink checkpoint.events
    diagnostics := state.diagnostics.shrink checkpoint.diagnostics
    failures := checkpoint.failures }

/-- The first report since a remembered state. -/
def firstReportSince (state : ParseState) (checkpoint : Checkpoint) : Option Diagnostic :=
  state.diagnostics[checkpoint.diagnostics]?

def discard (state : ParseState) : ParseState :=
  if state.kind = .eof then state
  else
    { state with
      events := state.events.push (.token { state.lexer.current with error := none } none)
      lexer := state.lexer.advance }

/-- Skips the rest of a malformed element: up to and including a semicolon or a balanced group in
braces, or up to a closing brace or the end of the text. `braces` counts the open ones, and
`isFirst` says that nothing has been skipped yet, in which case a closing brace is skipped too. -/
def skipElement (braces : Nat) (isFirst : Bool) (state : ParseState) : Nat → ParseState
  | 0 => state
  | limit + 1 =>
    match state.kind with
    | .eof => state
    | .rightBrace =>
      match braces with
      | 0 => if isFirst then state.discard else state
      | 1 => state.discard
      | braces + 1 => state.discard.skipElement braces false limit
    | .semicolon =>
      if braces = 0 then state.discard else state.discard.skipElement braces false limit
    | .leftBrace => state.discard.skipElement (braces + 1) false limit
    | _ => state.discard.skipElement braces false limit

end ParseState

end ScriptTree

import ScriptTree.Grammar.Items
import ScriptTree.Parser.Bounded

/-!
Parsing: from a text to its tree and the reports about it. Malformed parts become error nodes, so
every text has a tree, as long as its events and entries can be counted with 32 bits. What the tree
is does not depend on that bound: `parseWith` builds it without.
-/

namespace ScriptTree

/-- The nesting limit unless another one is asked for. -/
def defaultLimit : Nat :=
  128

structure Parse where
  tree : Tree
  diagnostics : List Diagnostic
  deriving DecidableEq, Repr, Inhabited

def Parse.hasErrors (parse : Parse) : Bool :=
  !parse.diagnostics.isEmpty

/-- How many rules may be in progress at once. At each level of nesting, and outside all of them,
fewer than eight rules can be waiting for one another. -/
def ruleBudget (limit : Nat) : Nat :=
  8 * (limit + 1)

def readItem (state : ParseState) : Outcome × ParseState :=
  (Phrase.recover Grammar.item).run (Phrase.runRule grammar (ruleBudget state.limit)) state

def readFile (text : String) (limit : Nat) : ParseState :=
  let state := (ParseState.ofText text limit).openNode
  let state := state.loopWhile (fun state => state.kind != .eof) readItem state.rounds
  (((state.demand .eof).push none).endNode 0 (.chose .sourceFile)).2

/-- The reports of a parse in the order of their places: those of the grammar, and those of the
lexer that are still attached to a token. Of two at one place, the grammar's come first. -/
def ParseState.reports (state : ParseState) : List Diagnostic :=
  let lexical := state.events.toList.filterMap fun event =>
    event.error?.map fun error => ⟨.lexical, error.fault.message, error.span⟩
  (state.diagnostics.toList ++ lexical).mergeSort fun a b => a.span.start ≤ b.span.start

/-- The parse that a state stands for: the tree of its events, and its reports. -/
def ParseState.finish (state : ParseState) (text : String) : Except BuildError Parse := do
  if state.misused || !state.events.isLinked then throw .misused
  let tree ← Tree.build text state.events.steps
  return { tree, diagnostics := state.reports }

/-- Reads a whole file, as long as all marks have 32 bits. -/
def readFile? (text : String) (limit : Nat) : Option ParseState := do
  let start ← (ParseState.ofText text limit).openNode?
  let items : Clause := .loop (.not (.sees .eof)) (.recover Grammar.item)
  let (_, last) ← items.run? (Phrase.runRule? grammar (ruleBudget limit)) start
  some (((last.demand .eof).push none).endNode 0 (.chose .sourceFile)).2

/-- Parses a text with a nesting limit. A text with more events or entries than numbers of 32 bits
can count has no parse. -/
def parseBounded (text : String) (limit : Nat) : Except BuildError Parse :=
  match readFile? text limit with
  | none => .error .tooMany
  | some state => state.finish text

def parseWith (text : String) (limit : Nat) : Except BuildError Parse := do
  let state := readFile text limit
  if state.misused || !state.events.isLinked then throw .misused
  let tree ← Tree.assemble text state.events.steps
  return { tree, diagnostics := state.reports }

def parse (text : String) : Except BuildError Parse :=
  parseWith text defaultLimit

end ScriptTree

import ScriptTree.Literal.Integer
import ScriptTree.Report
import ScriptTree.Text.Letter
import ScriptTree.Tree.Dump
import ScriptTree.Tree.OutlineJson
import ScriptTree.Workspace

/-!
The command line without its surroundings: what the arguments ask for, and what is answered once
the file has been read, or could not be read.

    tokens FILE           the tokens of a file, one on each line
    parse FILE [--json]   the tree of a file, as a dump or as JSON
    check FILE            the reports about a file; fails if there are any

`--max-depth N` sets the nesting limit, also as `--max-depth=N`. It may stand before the action or
behind it, and behind it wins. `--verbose` or `-v` may stand in the same places; there is nothing
more to tell. Behind `--` there are no options.
-/

namespace ScriptTree

inductive Action where
  | tokens | dump | json | check
  deriving DecidableEq, Repr, Inhabited

inductive Argument where
  | json
  | verbose
  | limit (value : Nat)
  | separator
  | word (text : String)
  deriving DecidableEq, Repr, Inhabited

namespace Argument

/-- The value of a decimal number of at most 32 bits, with or without a sign. With a minus it can
only be zero. -/
def limitOf? (text : String) : Option Nat :=
  let (negative, digits) := Integer.splitSign text.toList
  if digits.isEmpty then none
  else
    let value? := digits.foldlM
      (fun value c => (Text.digitValue? 10 c).map (10 * value + ·)) 0
    value?.filter fun value => value < UInt32.size && !(negative && value != 0)

/-- Whether an argument is meant as an option. A dash alone is a word. -/
def isOption (text : String) : Bool :=
  text.startsWith "-" && text != "-"

/-- The arguments one by one, unless an option is unknown or its value is wrong. -/
def readAll? : List String → Option (List Argument)
  | [] => some []
  | "--" :: rest => some (.separator :: rest.map .word)
  | "--json" :: rest => (.json :: ·) <$> readAll? rest
  | "--verbose" :: rest => (.verbose :: ·) <$> readAll? rest
  | "-v" :: rest => (.verbose :: ·) <$> readAll? rest
  | "--max-depth" :: value :: rest => do
    guard (!isOption value)
    return .limit (← limitOf? value) :: (← readAll? rest)
  | text :: rest =>
    if text.startsWith "--max-depth=" then do
      let value := (text.drop "--max-depth=".length).toString
      return .limit (← limitOf? value) :: (← readAll? rest)
    else if isOption text then none
    else (.word text :: ·) <$> readAll? rest

def limit? : Argument → Option Nat
  | .limit value => some value
  | _ => none

def word? : Argument → Option String
  | .word text => some text
  | _ => none

end Argument

structure Request where
  action : Action
  path : String
  limit : Nat
  deriving DecidableEq, Repr, Inhabited

namespace Request

def actionOf? : String → Bool → Option Action
  | "tokens", false => some .tokens
  | "parse", false => some .dump
  | "parse", true => some .json
  | "check", false => some .check
  | _, _ => none

def areDistinct (arguments : List Argument) : Bool :=
  arguments.count .json ≤ 1 && arguments.count .verbose ≤ 1 &&
    (arguments.filterMap Argument.limit?).length ≤ 1

/-- The request that the arguments stand for. The first word is the action, and the only other one
is the path. No option may be given twice on the same side of the action. -/
def ofArguments? (arguments : List String) : Option Request := do
  let arguments ← Argument.readAll? arguments
  let before := arguments.takeWhile (·.word?.isNone)
  match arguments.drop before.length with
  | .word action :: after =>
    guard (areDistinct before && areDistinct after)
    guard (!before.contains .json && !before.contains .separator)
    let action ← actionOf? action (after.contains .json)
    let limit := (after ++ before).findSome? Argument.limit?
    match after.filterMap Argument.word? with
    | [path] => return ⟨action, path, limit.getD defaultLimit⟩
    | _ => none
  | _ => none

end Request

structure Answer where
  exitCode : UInt32
  output : List String
  reports : List Diagnostic
  notice : Option String
  deriving DecidableEq, Repr, Inhabited

namespace Answer

def success (output : List String) (reports : List Diagnostic) : Answer :=
  ⟨0, output, reports, none⟩

def failure (exitCode : UInt32) (reports : List Diagnostic) (notice : String) : Answer :=
  ⟨exitCode, [], reports, some notice⟩

def usage : Answer :=
  failure 2 [] "usage: tokens FILE | parse FILE [--json] | check FILE, with --max-depth N"

end Answer

def Token.line (token : Token) : String :=
  Tree.renderPlace token.kind token.span ++ " " ++ Text.quote token.text

def Diagnostic.toJson (diagnostic : Diagnostic) : Json :=
  .object
    [("kind", .string diagnostic.kind.code), ("message", .string diagnostic.message),
     ("start", .number diagnostic.span.start), ("end", .number diagnostic.span.stop)]

def Parse.toJson (parse : Parse) : Json :=
  .object
    [("tree", parse.tree.outline.toJson),
     ("diagnostics", .array (parse.diagnostics.map Diagnostic.toJson))]

namespace Request

def answerCheck (request : Request) (parse : Parse) : Answer :=
  let count := parse.diagnostics.length
  if count = 0 then .success [] []
  else
    .failure 1 parse.diagnostics (request.path ++ ": " ++ toString count ++ " error(s)")

def answerParse (request : Request) (parse : Parse) : Answer :=
  match request.action with
  | .dump => .success parse.tree.dump parse.diagnostics
  | .json => .success (parse.toJson.pretty.splitOn "\n") []
  | _ => request.answerCheck parse

def answer (request : Request) (content : Option String) : Answer :=
  match content, request.action with
  | none, _ => .failure 1 [] ("Error: failed to read `" ++ request.path ++ "`")
  | some text, .tokens => .success ((tokenize text).map Token.line) []
  | some text, _ =>
    match (Workspace.empty request.limit).parse ⟨request.path, text⟩ with
    | .error _ => .failure 101 [] "Error: no tree"
    | .ok parse => request.answerParse parse

def reportLines (request : Request) (content : Option String) (answer : Answer) : List String :=
  let table := LineTable.ofText (content.getD "")
  answer.reports.flatMap fun diagnostic => diagnostic.report request.path table

end Request

end ScriptTree

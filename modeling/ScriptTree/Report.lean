import ScriptTree.Diagnostic
import ScriptTree.Text.Blank
import ScriptTree.Text.Lines

/-!
Reports for people: the message, the place, and the line that it is about, with marks under the
reported stretch.
-/

namespace ScriptTree

structure MarkedLine where
  number : Nat
  before : List Char
  marked : List Char
  after : List Char
  deriving DecidableEq, Repr, Inhabited

/-- The line on which a stretch starts, with as much of the stretch as lies on it. There is none at
the end of a text that ends with a line feed, or is empty. -/
def LineTable.marked? (table : LineTable) (span : Span) : Option MarkedLine :=
  let number := table.lineAt span.start
  let start := table.start number
  if start = table.text.utf8ByteSize then none
  else
    let chars := (table.line number).toList
    let column := (Span.read ⟨start, span.start⟩ table.text).length
    let width := (span.read table.text).length
    let rest := chars.drop column
    some ⟨number, chars.take column, rest.take width, rest.drop width⟩

def spread (chars : List Char) : List Char :=
  chars.flatMap fun c => if c == '\t' then [' ', ' ', ' ', ' '] else [c]

namespace MarkedLine

def columns (line : MarkedLine) : List Char :=
  spread (line.before ++ line.marked ++ line.after)

/-- How many columns of a long indentation are left out. What is kept leaves room for the number of
the line below. -/
def cut (line : MarkedLine) : Nat :=
  let indentation := (line.columns.takeWhile Text.isBlank).length
  let digits := (toString (line.number + 2)).length
  if 29 + digits < indentation then indentation - (25 + digits) else 0

/-- The columns that are shown. Three points stand for what is left out. -/
def shown (line : MarkedLine) : String :=
  String.ofList <|
    if line.cut = 0 then line.columns
    else ['.', '.', '.'] ++ line.columns.drop (line.cut + 3)

def marks (line : MarkedLine) : String :=
  "".pushn ' ' ((spread line.before).length - line.cut) ++
    "".pushn '^' (max 1 (spread line.marked).length) ++ " here"

end MarkedLine

/-- The lines of a report. The margin is as wide as the number of the line that is shown. Where
there is no line to show, the report stands for the start of the text. -/
def Diagnostic.report (diagnostic : Diagnostic) (path : String) (table : LineTable) :
    List String :=
  let title := "error[" ++ diagnostic.kind.code ++ "]: " ++ diagnostic.message
  match table.marked? diagnostic.span with
  | none => [title, "--> " ++ path ++ ":1:1", " |", " |"]
  | some line =>
    let number := toString (line.number + 1)
    let margin := "".pushn ' ' number.length
    let column := toString (line.before.length + 1)
    let shown := line.shown
    [ title,
      margin ++ "--> " ++ path ++ ":" ++ number ++ ":" ++ column,
      margin ++ " |",
      number ++ " |" ++ (if shown.isEmpty then "" else " " ++ shown),
      margin ++ " | " ++ line.marks,
      margin ++ " |" ]

end ScriptTree

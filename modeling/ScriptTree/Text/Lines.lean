import ScriptTree.Text.Slice

/-!
Lines and columns. A line ends after its line feed, so the lines of a text tile it, and a text that
ends with a line feed has an empty last line. Lines are counted from zero, columns in bytes.

A line table holds the offsets at which the lines of a text start. It is made once for a text; a
place is then found by halving.
-/

namespace ScriptTree

structure Place where
  line : Nat
  column : Nat
  deriving DecidableEq, Repr, Inhabited

structure LineTable where
  text : String
  starts : Array Nat
  deriving DecidableEq, Repr, Inhabited

structure LineScan where
  starts : Array Nat
  offset : Nat
  deriving DecidableEq, Repr, Inhabited

def LineScan.step (scan : LineScan) (c : Char) : LineScan :=
  let next := scan.offset + c.utf8Size
  ⟨if c == '\n' then scan.starts.push next else scan.starts, next⟩

namespace LineTable

def ofText (text : String) : LineTable :=
  ⟨text, (text.toList.foldl LineScan.step ⟨#[0], 0⟩).starts⟩

def start (table : LineTable) (line : Nat) : Nat :=
  table.starts.getD line table.text.utf8ByteSize

def lineBetween (table : LineTable) (offset low high : Nat) : Nat :=
  if low + 1 < high then
    let middle := (low + high) / 2
    if table.start middle ≤ offset then table.lineBetween offset middle high
    else table.lineBetween offset low middle
  else
    low
termination_by high - low

def lineAt (table : LineTable) (offset : Nat) : Nat :=
  table.lineBetween offset 0 table.starts.size

/-- The line and the column of an offset, unless it lies outside the text or inside a character. -/
def place? (table : LineTable) (offset : Nat) : Option Place :=
  if Span.isBoundary table.text offset then
    let line := table.lineAt offset
    some ⟨line, offset - table.start line⟩
  else
    none

/-- The offset that lies `column` bytes after the start of a line, if there is such a line. The
column may go beyond the end of the line; offsets are words of 32 bits. -/
def offset? (table : LineTable) (place : Place) : Option Nat :=
  table.starts[place.line]?.map fun start => (start + place.column) % UInt32.size

def line (table : LineTable) (line : Nat) : String :=
  let chars := (Span.read ⟨table.start line, table.start (line + 1)⟩ table.text).toList
  let chars := if chars.getLast? == some '\n' then chars.dropLast else chars
  String.ofList (if chars.getLast? == some '\r' then chars.dropLast else chars)

end LineTable

end ScriptTree

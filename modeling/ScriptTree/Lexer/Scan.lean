import ScriptTree.Lexer.Keyword
import ScriptTree.Lexer.Number
import ScriptTree.Lexer.Operator
import ScriptTree.Lexer.Quoted
import ScriptTree.Lexer.StateWord
import ScriptTree.Token

/-!
One token at a time: the kind and the length of the token at the front of some characters. What a
token is depends on the place in the grammar, so the reading mode is a parameter.
-/

namespace ScriptTree

open Text

/-- How a token is read: as an ordinary one, as the sprite or the frames of a state line, or with
`>` standing alone even before further operator characters. A mode whose own form does not fit
falls back to the ordinary reading. -/
inductive LexMode where
  | plain | sprite | frames | angle
  deriving DecidableEq, Repr, Inhabited

structure Scan where
  kind : Kind
  size : Nat
  fault : Option LexFault
  deriving DecidableEq, Repr, Inhabited

namespace Scan

def sound (kind : Kind) (size : Nat) : Scan :=
  ⟨kind, size, none⟩

def word (chars : List Char) : Scan :=
  let word := chars.takeWhile isNamePart
  sound ((keyword? (String.ofList word)).getD .name) word.length

def quoted (chars : List Char) (quote : Char) (kind : Kind) (fault : LexFault) : Scan :=
  let run := quotedRun quote (chars.drop 1)
  ⟨kind, 1 + run.size, if run.closed then none else some fault⟩

def atInclude (chars : List Char) : Bool :=
  match chars with
  | '#' :: rest =>
    (rest.take 7).map Char.toLower == ['i', 'n', 'c', 'l', 'u', 'd', 'e'] &&
      !(rest.drop 7).head?.any isNamePart
  | _ => false

def symbol (chars : List Char) : Scan :=
  match chars with
  | [] => sound .unknown 1
  | c :: rest =>
    let (kind, size) := operatorAt c rest
    sound kind size

def plain (preceding : Kind) (chars : List Char) : Scan :=
  match chars with
  | [] => sound .eof 0
  | c :: _ =>
    if Number.starts preceding chars then
      let (size, kind) := Number.measure chars
      sound kind size
    else if isNameStart c then word chars
    else if c == '"' then quoted chars '"' .string .unterminatedString
    else if c == '\'' then quoted chars '\'' .nameLiteral .unterminatedName
    else if atInclude chars then sound .includeKw 8
    else symbol chars

def special? (mode : LexMode) (chars : List Char) : Option Scan :=
  match mode with
  | .plain => none
  | .sprite => (sprite? chars).map (sound .sprite)
  | .frames => (frames? chars).map (sound .frames)
  | .angle => if chars.head? == some '>' then some (sound .gt 1) else none

end Scan

def scan (mode : LexMode) (preceding : Kind) (chars : List Char) : Scan :=
  (Scan.special? mode chars).getD (Scan.plain preceding chars)

end ScriptTree

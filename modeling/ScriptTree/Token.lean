import ScriptTree.Text.Span
import ScriptTree.Trivia

/-!
Tokens with the layout around them. A token owns the layout that follows it, so only the first
token of a text has layout in front.
-/

namespace ScriptTree

inductive LexFault where
  | unterminatedString | unterminatedName | unterminatedComment
  deriving DecidableEq, Repr, Inhabited

def LexFault.message : LexFault → String
  | .unterminatedString => "unterminated string literal"
  | .unterminatedName => "unterminated name literal"
  | .unterminatedComment => "unterminated block comment"

structure LexError where
  fault : LexFault
  span : Span
  deriving DecidableEq, Repr, Inhabited

/-- A token: its kind, place and text, the layout around it, and what is wrong with it. The span
and the text leave the layout out. -/
structure Token where
  leading : List Piece
  kind : Kind
  span : Span
  text : String
  trailing : List Piece
  error : Option LexError
  deriving DecidableEq, Repr, Inhabited

def Token.hasLineBreak (token : Token) : Bool :=
  Piece.hasLineBreak token.leading || Piece.hasLineBreak token.trailing

end ScriptTree

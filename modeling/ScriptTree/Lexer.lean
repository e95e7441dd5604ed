import ScriptTree.Lexer.Layout
import ScriptTree.Lexer.Scan

/-!
The lexer: a text is read token by token, with one token of lookahead that can be read again in
another mode.

A lexer is determined by the place where its lookahead starts, the mode of reading and the kind
of the token before; reading again in another mode starts over from there.
-/

namespace ScriptTree

/-- Reads a token with the layout on both sides, and gives the position after them. A fault in the
layout behind the token is reported before one in the token, and that before one in front. -/
def lex (mode : LexMode) (preceding : Kind) (start : Cursor) : Token × Cursor :=
  let front := layout start
  let found := scan mode preceding front.after.rest
  let stop := front.after.skip found.size
  let span : Span := ⟨front.after.offset, stop.offset⟩
  let back := layout stop
  let token : Token :=
    { leading := front.pieces
      kind := found.kind
      span
      text := String.ofList (front.after.peek found.size)
      trailing := back.pieces
      error := back.error <|> (found.fault.map (⟨·, span⟩)) <|> front.error }
  (token, back.after)

/-- A lexer: where its lookahead starts, how it was read, the lookahead itself, and where the next
token starts. -/
structure Lexer where
  start : Cursor
  mode : LexMode
  preceding : Kind
  current : Token
  next : Cursor
  deriving DecidableEq, Repr, Inhabited

namespace Lexer

def place (start : Cursor) (mode : LexMode) (preceding : Kind) : Lexer :=
  let (current, next) := lex mode preceding start
  { start, mode, preceding, current, next }

def ofText (text : String) : Lexer :=
  place (Cursor.ofText text) .plain .eof

def advance (lexer : Lexer) : Lexer :=
  place lexer.next .plain lexer.current.kind

def relex (lexer : Lexer) (mode : LexMode) : Lexer :=
  if lexer.mode = mode then lexer else place lexer.start mode lexer.preceding

def ahead (lexer : Lexer) : Nat → Token
  | 0 => lexer.current
  | count + 1 => lexer.advance.ahead count

def collect (lexer : Lexer) : Nat → List Token
  | 0 => []
  | limit + 1 =>
    if lexer.current.kind = .eof then [lexer.current]
    else lexer.current :: lexer.advance.collect limit

end Lexer

/-- The tokens of a text, the end of the text included. Every other token has at least one
character, which bounds their number. -/
def tokenize (text : String) : List Token :=
  (Lexer.ofText text).collect (text.length + 1)

end ScriptTree

import ScriptTree.Kind.Class

/-!
How messages name the kinds of tokens.
-/

namespace ScriptTree

namespace Kind

def backquoted (text : String) : String :=
  "`" ++ text ++ "`"

def describe (kind : Kind) : String :=
  match kind with
  | .leftParen => backquoted "("
  | .rightParen => backquoted ")"
  | .leftBracket => backquoted "["
  | .rightBracket => backquoted "]"
  | .leftBrace => backquoted "\x7b"
  | .rightBrace => backquoted "\x7d"
  | .semicolon => backquoted ";"
  | .comma => backquoted ","
  | .colon => backquoted ":"
  | .colon2 => backquoted "::"
  | .dot => backquoted "."
  | .eq => backquoted "="
  | .lt => backquoted "<"
  | .gt => backquoted ">"
  | .plus => backquoted "+"
  | .name => "an identifier"
  | .intNumber => "an integer"
  | .string => "a string"
  | .sprite => "a sprite name"
  | .frames => "state frames"
  | .eof => "end of file"
  | .includeKw => backquoted "#include"
  | kind =>
    if kind.isKeyword then backquoted (kind.identifier.dropEnd 3).copy
    else kind.identifier

end Kind

end ScriptTree

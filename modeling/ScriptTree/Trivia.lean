import ScriptTree.Kind

/-!
Layout between the tokens: white space, line breaks and comments, cut into pieces that each know
their kind and their size in bytes.
-/

namespace ScriptTree

/-- The kinds of layout. A line continuation is a backslash right before a line break. -/
inductive TriviaKind where
  | whitespace | newline | lineComment | blockComment | lineContinuation
  deriving DecidableEq, Repr, Inhabited

namespace TriviaKind

def toKind : TriviaKind → Kind
  | .whitespace => .whitespace
  | .newline => .newline
  | .lineComment => .lineComment
  | .blockComment => .blockComment
  | .lineContinuation => .lineContinuation

def title : TriviaKind → String
  | .whitespace => "Whitespace"
  | .newline => "Newline"
  | .lineComment => "SingleLineComment"
  | .blockComment => "BlockComment"
  | .lineContinuation => "LineContinuation"

def all : List TriviaKind :=
  [.whitespace, .newline, .lineComment, .blockComment, .lineContinuation]

def ofIdentifier? (name : String) : Option TriviaKind :=
  all.find? fun kind => kind.toKind.identifier == name

end TriviaKind

structure Piece where
  kind : TriviaKind
  size : Nat
  deriving DecidableEq, Repr, Inhabited

namespace Piece

def totalSize (pieces : List Piece) : Nat :=
  pieces.foldl (fun total piece => total + piece.size) 0

def hasLineBreak (pieces : List Piece) : Bool :=
  pieces.any fun piece => piece.kind == .newline

end Piece

end ScriptTree

/-!
Why the text of a literal has no value.
-/

namespace ScriptTree

/-- The faults of a literal. The offset of an escape is the byte position of its backslash. -/
inductive LiteralError where
  | empty | invalidDigit | overflow | unterminatedString
  | invalidEscape (offset : Nat)
  deriving DecidableEq, Repr, Inhabited

def LiteralError.message : LiteralError → String
  | .empty => "empty literal"
  | .invalidDigit => "invalid digit in number literal"
  | .overflow => "number literal is too large"
  | .unterminatedString => "unterminated string literal"
  | .invalidEscape offset => s!"invalid escape sequence at offset {offset}"

end ScriptTree

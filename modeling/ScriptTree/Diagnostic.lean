import ScriptTree.Text.Span

/-!
What a reader of a text has to complain about.
-/

namespace ScriptTree

inductive DiagnosticKind where
  | lexical | structural | ambiguous | tooDeep
  deriving DecidableEq, Repr, Inhabited

def DiagnosticKind.code : DiagnosticKind → String
  | .lexical => "lexical"
  | .structural => "syntax"
  | .ambiguous => "ambiguity-exhausted"
  | .tooDeep => "depth-exceeded"

structure Diagnostic where
  kind : DiagnosticKind
  message : String
  span : Span
  deriving DecidableEq, Repr, Inhabited

def Diagnostic.render (diagnostic : Diagnostic) : String :=
  diagnostic.kind.code ++ "@" ++ diagnostic.span.render ++ ": " ++ diagnostic.message

end ScriptTree

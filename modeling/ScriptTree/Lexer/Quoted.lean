/-!
Quoted literals: strings in double quotes and names in single quotes. A backslash takes the
character after it along, whatever it is; otherwise a literal ends at its quote, and a line break
or the end of the text leaves it unterminated.
-/

namespace ScriptTree

structure QuotedRun where
  size : Nat
  closed : Bool
  deriving DecidableEq, Repr, Inhabited

def QuotedRun.after (run : QuotedRun) (count : Nat) : QuotedRun :=
  ⟨count + run.size, run.closed⟩

def quotedRun (quote : Char) : List Char → QuotedRun
  | [] => ⟨0, false⟩
  | '\n' :: _ => ⟨0, false⟩
  | ['\\'] => ⟨1, false⟩
  | '\\' :: _ :: rest => (quotedRun quote rest).after 2
  | c :: rest => if c == quote then ⟨1, true⟩ else (quotedRun quote rest).after 1

end ScriptTree

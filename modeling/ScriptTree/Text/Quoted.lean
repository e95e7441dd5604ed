import ScriptTree.Text.Hidden

/-!
Texts in double quotes, as dumps show them: the quote, the backslash and the common controls by a
backslash and a letter, hidden characters by number, all else as it is.
-/

namespace ScriptTree

namespace Text

/-- One character of a quoted text. The single quote needs no escape between double quotes. -/
def quoteChar (c : Char) : String :=
  match c with
  | '"' => "\\\""
  | '\\' => "\\\\"
  | '\n' => "\\n"
  | '\r' => "\\r"
  | '\t' => "\\t"
  | '\x00' => "\\0"
  | c =>
    if isHidden c then
      "\\u\x7b" ++ String.ofList (Nat.toDigits 16 c.toNat) ++ "\x7d"
    else
      c.toString

def quote (text : String) : String :=
  "\"" ++ text.foldl (fun shown c => shown ++ quoteChar c) "" ++ "\""

end Text

end ScriptTree

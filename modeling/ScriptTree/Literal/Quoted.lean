import ScriptTree.Literal.Error
import ScriptTree.Text.Letter
import ScriptTree.Text.Slice

/-!
Quoted literals and their escapes. Strings know the usual escapes; names know only the escaped
single quote.
-/

namespace ScriptTree

namespace QuotedLiteral

open Text

def inner? (quote : Char) (text : String) : Option (List Char) :=
  match text.toList with
  | first :: rest =>
    if first == quote && rest.getLast? == some quote then some rest.dropLast else none
  | [] => none

def scalar? (number : Nat) : Option Char :=
  if number.isValidChar then some (Char.ofNat number) else none

def numbered? (radix least most : Nat) (chars : List Char) : Option (Char × Nat) := do
  let run := (chars.take most).takeWhile (isDigitOf radix)
  guard (least ≤ run.length)
  let number := run.foldl (fun value c => value * radix + (digitValue? radix c).getD 0) 0
  let c ← scalar? number
  return (c, run.length)

/-- The escape after a backslash: what it stands for, and the number of its characters. An escaped
line break stands for nothing. -/
def escape? (chars : List Char) : Option (List Char × Nat) :=
  match chars with
  | [] => none
  | c :: rest =>
    match c with
    | 'n' => some (['\n'], 1)
    | 't' => some (['\t'], 1)
    | 'r' => some (['\r'], 1)
    | 'a' => some (['\x07'], 1)
    | 'b' => some (['\x08'], 1)
    | 'f' => some (['\x0C'], 1)
    | 'v' => some (['\x0B'], 1)
    | '\\' => some (['\\'], 1)
    | '"' => some (['"'], 1)
    | '\'' => some (['\''], 1)
    | '?' => some (['?'], 1)
    | '\n' => some ([], 1)
    | 'x' => (numbered? 16 1 4 rest).map fun (c, size) => ([c], size + 1)
    | 'u' => (numbered? 16 4 4 rest).map fun (c, size) => ([c], size + 1)
    | 'U' => (numbered? 16 8 8 rest).map fun (c, size) => ([c], size + 1)
    | _ => (numbered? 8 1 3 chars).map fun (c, size) => ([c], size)

def unescape (offset : Nat) (chars : List Char) : Except LiteralError (List Char) :=
  match chars with
  | [] => .ok []
  | c :: rest =>
    if c == '\\' then
      match escape? rest with
      | none => .error (.invalidEscape offset)
      | some (decoded, size) => do
        let more ← unescape (offset + 1 + byteCount (rest.take size)) (rest.drop size)
        return decoded ++ more
    else do
      let more ← unescape (offset + c.utf8Size) rest
      return c :: more
termination_by chars.length

def decodeString (text : String) : Except LiteralError String := do
  match inner? '"' text with
  | none => throw .unterminatedString
  | some chars => return String.ofList (← unescape 1 chars)

def unescapeName : List Char → List Char
  | '\\' :: '\'' :: rest => '\'' :: unescapeName rest
  | c :: rest => c :: unescapeName rest
  | [] => []

def decodeName (text : String) : Except LiteralError String :=
  match inner? '\'' text with
  | none => .error .unterminatedString
  | some chars => .ok (String.ofList (unescapeName chars))

end QuotedLiteral

end ScriptTree

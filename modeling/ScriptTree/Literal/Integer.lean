import ScriptTree.Literal.Error
import ScriptTree.Text.Letter

/-!
Integer literals: an optional sign, digits in radix 16, 2, 8 or 10 with single quotes among them,
and suffix letters. The digits must fit into 64 bits; read as a signed word they may turn negative.
-/

namespace ScriptTree

namespace Integer

open Text

def splitSign : List Char → Bool × List Char
  | '-' :: rest => (true, rest)
  | '+' :: rest => (false, rest)
  | chars => (false, chars)

def isSuffix (c : Char) : Bool :=
  c matches 'u' | 'U' | 'l' | 'L'

def dropSuffix (chars : List Char) (isSuffix : Char → Bool) : List Char :=
  (chars.reverse.dropWhile isSuffix).reverse

/-- The radix that the front of the digits names, and the digits after its mark. A leading zero
alone is no mark. -/
def splitRadix : List Char → Nat × List Char
  | '0' :: 'x' :: digits => (16, digits)
  | '0' :: 'X' :: digits => (16, digits)
  | '0' :: 'b' :: digits => (2, digits)
  | '0' :: 'B' :: digits => (2, digits)
  | '0' :: c :: digits => (8, c :: digits)
  | digits => (10, digits)

def digits (radix : Nat) (value : Nat) (isEmpty : Bool) : List Char → Except LiteralError Nat
  | [] => if isEmpty then .error .empty else .ok value
  | c :: rest =>
    if c == '\'' then digits radix value isEmpty rest
    else
      match digitValue? radix c with
      | none => .error .invalidDigit
      | some digit =>
        let value := value * radix + digit
        if value < 2 ^ 64 then digits radix value false rest else .error .overflow

def decode (text : String) : Except LiteralError Int64 := do
  let (negative, unsigned) := splitSign text.toList
  let (radix, body) := splitRadix (dropSuffix unsigned isSuffix)
  let value ← digits radix 0 true body
  let word := (UInt64.ofNat value).toInt64
  return if negative then -word else word

end Integer

end ScriptTree

import ScriptTree.Literal.Binary64
import ScriptTree.Literal.Integer

/-!
Floating-point literals. Single quotes and suffix letters are dropped; what remains is a decimal
number, or one of the words for infinity and for no number, and takes the nearest value.
-/

namespace ScriptTree

namespace FloatLiteral

open Text

def isSuffix (c : Char) : Bool :=
  c matches 'f' | 'F' | 'l' | 'L'

def addDigit (value : Nat) (c : Char) : Nat :=
  value * 10 + (c.toNat - '0'.toNat)

def natOf (digits : List Char) : Nat :=
  digits.foldl addDigit 0

/-- The number that the first `size` digits spell. Long runs are read by halves, so that large
numbers meet in few multiplications. -/
def natOfFirst (size : Nat) (digits : List Char) : Nat :=
  if size ≤ 16 then natOf (digits.take size)
  else
    natOfFirst (size - size / 2) digits * Nat.pow 10 (size / 2) +
      natOfFirst (size / 2) (digits.drop (size - size / 2))
termination_by size

/-- The size of an exponent that digits spell. It stops growing once it is at least `0x10000`,
where only the digits in front of the exponent could still make up for it. -/
def exponentSize (digits : List Char) : Nat :=
  digits.foldl (fun value c => if value < 0x10000 then addDigit value c else value) 0

def exponent? (chars : List Char) : Option Int :=
  match chars with
  | [] => some 0
  | mark :: rest =>
    let (negative, digits) := Integer.splitSign rest
    if (mark == 'e' || mark == 'E') && !digits.isEmpty && digits.all isDigit then
      some (if negative then -(exponentSize digits : Int) else exponentSize digits)
    else
      none

def decimal? (negative : Bool) (chars : List Char) : Option Binary64 := do
  let whole := chars.takeWhile isDigit
  let rest := chars.drop whole.length
  let hasPoint := rest.head? == some '.'
  let rest := if hasPoint then rest.drop 1 else rest
  let fraction := if hasPoint then rest.takeWhile isDigit else []
  let rest := rest.drop fraction.length
  guard (!(whole ++ fraction).isEmpty)
  let exponent ← exponent? rest
  let digits := whole ++ fraction
  return Binary64.ofDecimal negative (natOfFirst digits.length digits)
    (exponent - fraction.length)

def number? (chars : List Char) : Option Binary64 :=
  let (negative, unsigned) := Integer.splitSign chars
  let word := unsigned.map Char.toLower
  if word == ['i', 'n', 'f'] || word == ['i', 'n', 'f', 'i', 'n', 'i', 't', 'y'] then
    some (Binary64.ofMagnitude negative Binary64.infinityBits)
  else if word == ['n', 'a', 'n'] then
    some (Binary64.ofMagnitude negative Binary64.nanBits)
  else
    decimal? negative unsigned

/-- The value of a floating-point literal. A point at the end stands for a fraction of zero. -/
def decode (text : String) : Except LiteralError Binary64 :=
  let chars := (Integer.dropSuffix text.toList isSuffix).filter (· != '\'')
  if chars.isEmpty then .error .empty
  else
    let chars := if chars.getLast? == some '.' then chars ++ ['0'] else chars
    match number? chars with
    | some value => .ok value
    | none => .error .invalidDigit

end FloatLiteral

end ScriptTree

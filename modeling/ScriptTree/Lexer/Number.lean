import ScriptTree.Kind.Class
import ScriptTree.Text.Letter

/-!
Number literals: how many characters of the coming text belong to one, and whether it is an
integer or a floating-point number.
-/

namespace ScriptTree

namespace Number

open Text

def digitRun (radix : Nat) (afterDigit : Bool) : List Char → Nat
  | [] => 0
  | c :: rest =>
    if isDigitOf radix c then 1 + digitRun radix true rest
    else if c == '\'' && afterDigit && rest.head?.any (isDigitOf radix) then
      1 + digitRun radix false rest
    else 0

/-- The length of an exponent: a letter, perhaps a sign, and digits. Without digits there is no
exponent. -/
def exponent (chars : List Char) : Nat :=
  match chars with
  | c :: rest =>
    if c == 'e' || c == 'E' then
      match rest with
      | d :: more =>
        if (d == '-' || d == '+') && more.head?.any isDigit then 2 + digitRun 10 false more
        else if isDigit d then 1 + digitRun 10 false rest
        else 0
      | [] => 0
    else 0
  | [] => 0

def isSuffix (c : Char) : Bool :=
  c matches 'u' | 'U' | 'l' | 'L' | 'f' | 'F'

def isFloatSuffix (c : Char) : Bool :=
  c == 'f' || c == 'F'

/-- Whether a point before `next` starts a fraction. A second point makes a range, and a name
makes a member access, unless it starts like an exponent or a suffix. -/
def startsFraction (next : Option Char) : Bool :=
  match next with
  | none => true
  | some c => c != '.' && (!isNameStart c || c == 'e' || c == 'E' || isFloatSuffix c)

def fraction (chars : List Char) : Nat :=
  match chars with
  | '.' :: rest => if startsFraction rest.head? then 1 + digitRun 10 false rest else 0
  | _ => 0

def withSuffix (chars : List Char) (size : Nat) (isFloat : Bool) : Nat × Kind :=
  let suffix := (chars.drop size).takeWhile isSuffix
  (size + suffix.length, if isFloat || suffix.any isFloatSuffix then .floatNumber else .intNumber)

/-- The length of a number with a radix mark, `0x` or `0b`, up to its suffix. The mark counts only
before a digit of its radix. -/
def marked? (chars : List Char) : Option Nat :=
  match chars with
  | '0' :: mark :: rest =>
    let radix :=
      if mark == 'x' || mark == 'X' then 16 else if mark == 'b' || mark == 'B' then 2 else 0
    if rest.head?.any (isDigitOf radix) then some (2 + digitRun radix false rest) else none
  | _ => none

def unsigned (chars : List Char) : Nat × Kind :=
  match marked? chars with
  | some size => withSuffix chars size false
  | none =>
    let whole := digitRun 10 false chars
    let point := fraction (chars.drop whole)
    let power := exponent (chars.drop (whole + point))
    withSuffix chars (whole + point + power) (0 < point || 0 < power)

def startsUnsigned (chars : List Char) : Bool :=
  match chars with
  | '.' :: c :: _ => isDigit c
  | c :: _ => isDigit c
  | [] => false

/-- Whether a number starts here. A sign belongs to it only where no binary operator can stand. -/
def starts (preceding : Kind) (chars : List Char) : Bool :=
  match chars with
  | c :: rest =>
    if c == '-' || c == '+' then startsUnsigned rest && !preceding.endsOperand
    else startsUnsigned chars
  | [] => false

def measure (chars : List Char) : Nat × Kind :=
  match chars with
  | c :: rest =>
    if c == '-' || c == '+' then
      let (size, kind) := unsigned rest
      (1 + size, kind)
    else unsigned chars
  | [] => (0, .intNumber)

end Number

end ScriptTree

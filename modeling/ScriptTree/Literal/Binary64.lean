/-!
Double-precision numbers by their bits, and the nearest one to a fraction.

A finite number is `significand * 2 ^ exponent` with a significand below `2 ^ 53` and an exponent
of at least -1074. Rounding takes the nearest such number and, between two equally near ones, the
one whose significand is even.
-/

namespace ScriptTree

structure Binary64 where
  bits : UInt64
  deriving DecidableEq, Repr, Inhabited

namespace Binary64

/-- The quotient of two numbers, rounded to the nearest and at a tie to the even number. -/
def roundedQuotient (numerator denominator : Nat) : Nat :=
  let quotient := numerator / denominator
  let twice := 2 * (numerator % denominator)
  if twice < denominator then quotient
  else if denominator < twice then quotient + 1
  else quotient + quotient % 2

def signBit : Nat :=
  0x8000000000000000

def infinityBits : Nat :=
  0x7FF0000000000000

def nanBits : Nat :=
  0x7FF8000000000000

/-- The least exponent of a significand for `numerator / denominator`: the fraction lies below
`2 ^ (exponent + 53)`, and above `2 ^ (exponent + 52)` unless the exponent is -1074. -/
def exponentOf (numerator denominator : Nat) : Int :=
  let guess : Int := (Nat.log2 numerator : Int) - (Nat.log2 denominator : Int)
  let isBelow : Bool :=
    if guess < 0 then numerator <<< guess.natAbs < denominator
    else numerator < denominator <<< guess.natAbs
  max (-1074) ((if isBelow then guess - 1 else guess) - 52)

/-- The bits of the nearest number to a positive fraction. A significand that rounds up to
`2 ^ 53` carries into the exponent. -/
def magnitudeBits (numerator denominator : Nat) : Nat :=
  let exponent := exponentOf numerator denominator
  let significand :=
    if exponent < 0 then roundedQuotient (numerator <<< exponent.natAbs) denominator
    else roundedQuotient numerator (denominator <<< exponent.natAbs)
  if 971 < exponent then infinityBits
  else ((exponent + 1074).toNat <<< 52) + significand

def ofMagnitude (negative : Bool) (magnitude : Nat) : Binary64 :=
  ⟨UInt64.ofNat (if negative then signBit + magnitude else magnitude)⟩

/-- The nearest number to `mantissa * 10 ^ exponent`. A power of ten lies beyond the power of eight
with its exponent, so the number of bits of the mantissa can tell that the result is zero or
infinity, and then no power is computed. -/
def ofDecimal (negative : Bool) (mantissa : Nat) (exponent : Int) : Binary64 :=
  let bits : Int := Nat.log2 mantissa + 3 * exponent
  ofMagnitude negative <|
    if mantissa == 0 || (exponent < 0 && bits < -1076) then 0
    else if 0 ≤ exponent && 1024 ≤ bits then infinityBits
    else
      let power := Nat.pow 10 exponent.natAbs
      if exponent < 0 then magnitudeBits mantissa power else magnitudeBits (mantissa * power) 1

def isNaN (number : Binary64) : Bool :=
  infinityBits < number.bits.toNat % signBit

end Binary64

end ScriptTree

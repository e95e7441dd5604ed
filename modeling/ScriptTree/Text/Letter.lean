/-!
Classes of characters of source texts, and comparison of words without regard to case. Names and
keywords are ASCII words, so letter case means the case of the ASCII letters only.
-/

namespace ScriptTree

namespace Text

def isLetter (c : Char) : Bool :=
  ('a' ≤ c && c ≤ 'z') || ('A' ≤ c && c ≤ 'Z')

def isDigit (c : Char) : Bool :=
  '0' ≤ c && c ≤ '9'

def isNameStart (c : Char) : Bool :=
  isLetter c || c == '_'

def isNamePart (c : Char) : Bool :=
  isLetter c || isDigit c || c == '_'

def digitValue? (radix : Nat) (c : Char) : Option Nat :=
  let value? :=
    if isDigit c then some (c.toNat - '0'.toNat)
    else if 'a' ≤ c && c ≤ 'z' then some (c.toNat - 'a'.toNat + 10)
    else if 'A' ≤ c && c ≤ 'Z' then some (c.toNat - 'A'.toNat + 10)
    else none
  value?.filter (· < radix)

def isDigitOf (radix : Nat) (c : Char) : Bool :=
  (digitValue? radix c).isSome

def lower (s : String) : String :=
  String.ofList (s.toList.map Char.toLower)

def sameWord (a b : String) : Bool :=
  lower a == lower b

end Text

end ScriptTree

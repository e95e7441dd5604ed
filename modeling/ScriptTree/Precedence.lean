import ScriptTree.Kind.Set

/-!
How tightly operators bind. The levels go from the loosest, assignment, to the tightest, scope
access; the levels up to power belong to binary operators.
-/

namespace ScriptTree

inductive Precedence where
  | assignment | conditional | logicalOr | logicalAnd | equality | relational | concat | bitOr
  | bitXor | bitAnd | shift | additive | multiplicative | power | unary | suffix | access | scope
  deriving DecidableEq, Repr, Inhabited

inductive Associativity where
  | left | right
  deriving DecidableEq, Repr, Inhabited

namespace Precedence

def all : List Precedence :=
  [assignment, conditional, logicalOr, logicalAnd, equality, relational, concat, bitOr, bitXor,
   bitAnd, shift, additive, multiplicative, power, unary, suffix, access, scope]

def level (precedence : Precedence) : Nat :=
  precedence.ctorIdx

def title : Precedence → String
  | assignment => "Assignment"
  | conditional => "Conditional"
  | logicalOr => "LogicalOr"
  | logicalAnd => "LogicalAnd"
  | equality => "Equality"
  | relational => "Relational"
  | concat => "Concat"
  | bitOr => "BitOr"
  | bitXor => "BitXor"
  | bitAnd => "BitAnd"
  | shift => "Shift"
  | additive => "Additive"
  | multiplicative => "Multiplicative"
  | power => "Power"
  | unary => "Unary"
  | suffix => "Postfix"
  | access => "Access"
  | scope => "Scope"

def operators : Precedence → List Kind
  | assignment =>
    [.eq, .plusEq, .minusEq, .starEq, .slashEq, .percentEq, .shlEq, .shrEq, .ushrEq, .ampEq,
     .pipeEq, .caretEq]
  | conditional => [.question]
  | logicalOr => [.pipe2]
  | logicalAnd => [.amp2]
  | equality => [.eq2, .neq, .approxEq]
  | relational => [.lt, .gt, .lteq, .gteq, .ltgteq, .isKw]
  | concat => [.dot2]
  | bitOr => [.pipe]
  | bitXor => [.caret]
  | bitAnd => [.amp]
  | shift => [.shl, .shr, .ushr]
  | additive => [.plus, .minus]
  | multiplicative => [.star, .slash, .percent, .crossKw, .dotKw]
  | power => [.star2]
  | unary => []
  | suffix => [.plus2, .minus2]
  | access => [.leftParen, .leftBracket, .dot]
  | scope => [.colon2]

def of? (kind : Kind) : Option Precedence :=
  all.find? fun precedence => precedence.operators.contains kind

def ofBinary? (kind : Kind) : Option Precedence :=
  (of? kind).filter fun precedence => precedence.level ≤ power.level

def isPrefixOperator (kind : Kind) : Bool :=
  kind matches .minus | .plus | .bang | .tilde | .plus2 | .minus2

def associativity : Precedence → Associativity
  | assignment | conditional | unary => .right
  | _ => .left

def next (precedence : Precedence) : Precedence :=
  all.getD (precedence.level + 1) scope

def rightOperand (precedence : Precedence) : Precedence :=
  match precedence.associativity with
  | .right => precedence
  | .left => precedence.next

def binaryFrom (least : Precedence) : List Precedence :=
  all.filter fun precedence => least.level ≤ precedence.level && precedence.level ≤ power.level

end Precedence

end ScriptTree

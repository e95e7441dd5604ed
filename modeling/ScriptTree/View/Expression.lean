import ScriptTree.Literal
import ScriptTree.View.Basic

/-!
Views of expressions, of types and of declarators.
-/

namespace ScriptTree

variable {tree : Tree}

abbrev Literal (tree : Tree) := View tree (· == .literal)

abbrev ConcatenatedString (tree : Tree) := View tree (· == .concatenatedString)

abbrev NameRef (tree : Tree) := View tree (· == .nameRef)

abbrev ParenExpr (tree : Tree) := View tree (· == .parenExpr)

abbrev VectorLiteral (tree : Tree) := View tree (· == .vectorLiteral)

abbrev CastExpr (tree : Tree) := View tree (· == .castExpr)

abbrev BinaryExpr (tree : Tree) := View tree (· == .binaryExpr)

abbrev AssignmentExpr (tree : Tree) := View tree (· == .assignmentExpr)

abbrev ConditionalExpr (tree : Tree) := View tree (· == .conditionalExpr)

abbrev PrefixExpr (tree : Tree) := View tree (· == .prefixExpr)

abbrev PostfixExpr (tree : Tree) := View tree (· == .postfixExpr)

abbrev CallExpr (tree : Tree) := View tree (· == .callExpr)

abbrev ArgumentList (tree : Tree) := View tree (· == .argumentList)

abbrev MemberExpr (tree : Tree) := View tree (· == .memberExpr)

abbrev IndexExpr (tree : Tree) := View tree (· == .indexExpr)

abbrev NamedType (tree : Tree) := View tree (· == .namedType)

abbrev GenericType (tree : Tree) := View tree (· == .genericType)

namespace Literal

def token (literal : Literal tree) : Option TokenId :=
  tree.firstToken? literal.node

def value (literal : Literal tree) : Option LiteralValue := do
  let token ← literal.token
  LiteralValue.ofToken? (tree.leaf token).kind (tree.leafText token)

end Literal

def ConcatenatedString.value (strings : ConcatenatedString tree) : Option String := do
  let tokens := (tree.tokensBelow strings.node).filter fun token =>
    (tree.leaf token).kind == .string
  let values ← tokens.mapM fun token =>
    (QuotedLiteral.decodeString (tree.leafText token)).toOption
  return String.join values

def ParenExpr.inner (expression : ParenExpr tree) : Option (Expression tree) :=
  expression.child? .value

def VectorLiteral.components (vector : VectorLiteral tree) : List (Expression tree) :=
  vector.children .component

namespace CastExpr

def type (cast : CastExpr tree) : Option (TypeSpec tree) :=
  cast.child? .type

def operand (cast : CastExpr tree) : Option (Expression tree) :=
  cast.child? .operand

end CastExpr

namespace BinaryExpr

def left (expression : BinaryExpr tree) : Option (Expression tree) :=
  expression.child? .left

def operator (expression : BinaryExpr tree) : Option TokenId :=
  expression.token? .operator

def right (expression : BinaryExpr tree) : Option (Expression tree) :=
  expression.child? .right

end BinaryExpr

namespace AssignmentExpr

def left (expression : AssignmentExpr tree) : Option (Expression tree) :=
  expression.child? .left

def operator (expression : AssignmentExpr tree) : Option TokenId :=
  expression.token? .operator

def right (expression : AssignmentExpr tree) : Option (Expression tree) :=
  expression.child? .right

end AssignmentExpr

namespace ConditionalExpr

def condition (expression : ConditionalExpr tree) : Option (Expression tree) :=
  expression.child? .condition

def consequence (expression : ConditionalExpr tree) : Option (Expression tree) :=
  expression.child? .consequence

def alternative (expression : ConditionalExpr tree) : Option (Expression tree) :=
  expression.child? .alternative

end ConditionalExpr

namespace PrefixExpr

def operator (expression : PrefixExpr tree) : Option TokenId :=
  expression.token? .operator

def operand (expression : PrefixExpr tree) : Option (Expression tree) :=
  expression.child? .operand

end PrefixExpr

namespace PostfixExpr

def operator (expression : PostfixExpr tree) : Option TokenId :=
  expression.token? .operator

def operand (expression : PostfixExpr tree) : Option (Expression tree) :=
  expression.child? .operand

end PostfixExpr

namespace CallExpr

def function (call : CallExpr tree) : Option (Expression tree) :=
  call.child? .function

def arguments (call : CallExpr tree) : Option (ArgumentList tree) :=
  call.child? .arguments

end CallExpr

def ArgumentList.values (list : ArgumentList tree) : List (Expression tree) :=
  (tree.childNodes list.node).filterMap fun child =>
    if tree.kind child == .namedArgument then View.inSlot? tree child .value
    else View.cast? tree child

namespace MemberExpr

def object (expression : MemberExpr tree) : Option (Expression tree) :=
  expression.child? .object

def member (expression : MemberExpr tree) : Option (Ident tree) :=
  expression.child? .member

end MemberExpr

namespace IndexExpr

def object (expression : IndexExpr tree) : Option (Expression tree) :=
  expression.child? .object

def index (expression : IndexExpr tree) : Option (Expression tree) :=
  expression.child? .index

end IndexExpr

def NamedType.name (type : NamedType tree) : Option (Ident tree) :=
  type.child? .name

namespace GenericType

def name (type : GenericType tree) : Option (Ident tree) :=
  type.child? .name

def arguments (type : GenericType tree) : List (TypeSpec tree) :=
  match tree.nodeIn? type.node .arguments with
  | none => []
  | some arguments => View.inSlot tree arguments .type

end GenericType

namespace Declarator

def value (declarator : Declarator tree) : Option (Expression tree) :=
  declarator.child? .value

/-- The declared name. Where a declarator is written as a call, the name is what is called. -/
def name (declarator : Declarator tree) : Option String :=
  declarator.nameText? <|> do
    let value ← declarator.value
    let call : CallExpr tree ← View.cast? tree value.node
    let function ← call.function
    let callee : NameRef tree ← View.cast? tree function.node
    return callee.text

end Declarator

end ScriptTree

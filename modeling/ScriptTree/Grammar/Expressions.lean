import ScriptTree.Grammar.Types

/-!
Expressions. Binary operators are read by climbing the levels of binding: an operand, and then as
many operators as bind at least as tightly as asked, each with a right operand of its own.
-/

namespace ScriptTree

namespace Grammar

/-- Tokens that are a literal on their own. A string may also start a sequence of strings. -/
def literalFirst : List Kind :=
  [.intNumber, .floatNumber, .nameLiteral, .trueKw, .falseKw, .nullKw]

/-- Tokens that can only begin an operand, so that a type in parentheses before them is a cast. -/
def castOperandFirst : KindSet :=
  .ofList
    [.name, .intNumber, .floatNumber, .string, .nameLiteral, .trueKw, .falseKw, .nullKw, .selfKw,
     .superKw, .newKw, .sizeofKw, .alignofKw, .leftParen, .bang, .tilde]

def expressionFirst : KindSet :=
  castOperandFirst.union (.ofList [.minus, .plus, .plus2, .minus2, .defaultKw])

def prefixOperators : KindSet :=
  .ofList (Kind.all.filter Precedence.isPrefixOperator)

def binaryOperators (least : Precedence) : KindSet :=
  .ofList (least.binaryFrom.flatMap Precedence.operators)

def conditionalTail : Clause :=
  steps
    [token, inSlot .consequence (.call (.expression .assignment)), expect .colon,
     inSlot .alternative (.call (.expression .conditional)), .choose .conditionalExpr]

def binaryTail (level : Precedence) : Clause :=
  steps
    [tokenIn .operator, inSlot .right (.call (.expression level.rightOperand)),
     .choose (if level = .assignment then .assignmentExpr else .binaryExpr)]

def operatorTail (least : Precedence) : Clause :=
  cases
    (least.binaryFrom.map fun level =>
      (.seesAny level.operators,
        if level = .conditional then conditionalTail else binaryTail level))
    .reject

def climb (least : Precedence) : Clause :=
  .nested <| .chain (.call .unary) (.peek 0 (binaryOperators least))
    (fun operator => if operator = .question then .condition else .left) (operatorTail least)

def unary : Clause :=
  .branch (.peek 0 prefixOperators)
    (.nested (nodeOf .prefixExpr [tokenIn .operator, inSlot .operand (.call .unary)]))
    (.call .suffixed)

def argument : Clause :=
  .branch (.and (.sees .name) (.next .colon))
    (nodeOf .namedArgument [name .name, token, expressionIn .value])
    expression

def arguments : Clause :=
  inSlot .arguments (nodeOf .argumentList
    [delimited .leftParen .rightParen "expected an argument" expressionFirst argument])

def initializers : Clause :=
  .nested <| nodeOf .initializerList
    [delimited .leftBrace .rightBrace "expected an initializer" (expressionFirst.insert .leftBrace)
      (.branch (.sees .leftBrace) (inSlot .value (.call .initializers)) (expressionIn .value))]

/-- What follows the closing parenthesis of a cast. Two empty parentheses make a call instead, and
a sign makes a cast only behind a built-in type. -/
def castFollows (isBuiltin : Bool) : Test :=
  let signs : KindSet := if isBuiltin then .ofList [.minus, .plus] else .empty
  .and (.sees .rightParen)
    (.or (.and (.next .leftParen) (.not (.peek 2 (.single .rightParen))))
      (.and (.not (.next .leftParen)) (.peek 1 (castOperandFirst.union signs))))

/-- A type in parentheses and the start of an operand. A class type must be followed by an opening
parenthesis. -/
def castHead : Clause :=
  .seq token <| cases
    [(.sees .classKw,
      .both (.call .type) (check (.and (.sees .rightParen) (.next .leftParen)))),
     (.and (.word builtinTypes) (.next .rightParen),
      .both (.call .type) (check (castFollows true)))]
    (.both (.call .type) (check (castFollows false)))

def castTail (kind : Kind) : Clause :=
  steps
    [typeSpec, expect .rightParen, inSlot .operand (.nested (.call .unary)), .choose kind]

/-- A cast. A node is of the kind that its phrase chooses, whatever kinds the nodes within it are
of, so the kind is told by the keyword that only a class type starts with. -/
def cast : Clause :=
  .node <| .seq token <|
    .branch (.sees .classKw) (castTail .classCastExpr) (castTail .castExpr)

def components : Nat → Clause
  | 0 => when (.sees .comma) (.refuse "a vector literal has at most four components")
  | count + 1 => when (.sees .comma) (steps [token, expressionIn .component, components count])

def parenthesized : Clause :=
  .node <| steps
    [token,
     .slot (fun next => if next = .comma then .component else .value) expression,
     .branch (.sees .comma)
      (steps [components 3, expect .rightParen, .choose .vectorLiteral])
      (steps [expect .rightParen, .choose .parenExpr])]

def concatenation : Clause :=
  let isGlued : Test := .and .glued (.next .string)
  .branch isGlued
    (nodeOf .concatenatedString [token, .loop isGlued token, token])
    (nodeOf .literal [token])

def primary : Clause :=
  cases
    [(.seesAny literalFirst, nodeOf .literal [token]),
     (.sees .string, concatenation),
     (.sees .name, nodeOf .nameRef [token]),
     (.seesAny [.selfKw, .superKw, .defaultKw], nodeOf .keywordExpr [token]),
     (.sees .leftParen, .look castHead cast parenthesized),
     (.seesAny [.sizeofKw, .alignofKw],
      nodeOf .sizeofExpr
        [token, expect .leftParen, expressionIn .operand, expect .rightParen]),
     (.sees .newKw, nodeOf .newExpr [token, when (.sees .leftParen) (.call .arguments)])]
    (.missing "an expression")

def suffixSlot : Kind → Field
  | .leftParen => .function
  | .leftBracket => .object
  | .dot => .object
  | .colon2 => .scope
  | _ => .operand

def suffixTail : Clause :=
  cases
    [(.sees .leftParen, steps [.call .arguments, .choose .callExpr]),
     (.sees .leftBracket,
      steps [token, expressionIn .index, expect .rightBracket, .choose .indexExpr]),
     (.sees .dot, steps [token, name .member, .choose .memberExpr]),
     (.sees .colon2, steps [token, name .member, .choose .scopeExpr])]
    (steps [tokenIn .operator, .choose .postfixExpr])

def suffixed : Clause :=
  .chain primary
    (.seesAny [.leftParen, .leftBracket, .dot, .colon2, .plus2, .minus2]) suffixSlot suffixTail

end Grammar

end ScriptTree

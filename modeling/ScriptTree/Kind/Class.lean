import ScriptTree.Kind.Set

/-!
The classes of kinds: layout, keywords and literals among the tokens; expressions, statements,
types and declarators among the nodes.
-/

namespace ScriptTree

namespace Kind

def isTrivia (kind : Kind) : Bool :=
  kind matches .whitespace | .newline | .lineComment | .blockComment | .lineContinuation

/-- Reserved words, the include directive among them. They are numbered without a gap. -/
def isKeyword (kind : Kind) : Bool :=
  includeKw.id ≤ kind.id && kind.id ≤ newKw.id

def isLiteral (kind : Kind) : Bool :=
  kind matches .intNumber | .floatNumber | .string | .nameLiteral | .trueKw | .falseKw | .nullKw

def isExpression (kind : Kind) : Bool :=
  kind matches .literal | .concatenatedString | .nameRef | .keywordExpr | .parenExpr
    | .vectorLiteral | .castExpr | .classCastExpr | .binaryExpr | .assignmentExpr
    | .conditionalExpr | .prefixExpr | .postfixExpr | .callExpr | .memberExpr | .indexExpr
    | .scopeExpr | .sizeofExpr | .newExpr

def isStatement (kind : Kind) : Bool :=
  kind matches .compoundStatement | .expressionStatement | .localDeclaration | .letDeclaration
    | .ifStatement | .switchStatement | .whileStatement | .untilStatement | .doStatement
    | .forStatement | .foreachStatement | .returnStatement | .breakStatement
    | .continueStatement | .emptyStatement | .multiAssignmentStatement | .staticArrayStatement
    | .caseLabel | .defaultLabel

def isTypeSpecifier (kind : Kind) : Bool :=
  kind matches .namedType | .qualifiedType | .genericType | .classType | .readonlyType

def isDeclarator (kind : Kind) : Bool :=
  kind matches .variableDeclarator | .arrayDeclarator

def isItem (kind : Kind) : Bool :=
  kind matches .includeDirective | .versionDirective | .classDefinition | .structDefinition
    | .enumDefinition | .constDefinition | .mixinClassDefinition | .extendClass | .extendStruct
    | .functionDefinition | .fieldDeclaration

def isStateItem (kind : Kind) : Bool :=
  kind matches .stateLabel | .stateLine | .stateFlow

/-- Tokens that can be the last one of an operand. A sign after any other token may belong to a
number, since no binary operator can stand there. -/
def endsOperand (kind : Kind) : Bool :=
  kind matches .name | .intNumber | .floatNumber | .string | .nameLiteral | .rightParen
    | .rightBracket | .trueKw | .falseKw | .nullKw | .selfKw | .superKw | .plus2 | .minus2

end Kind

end ScriptTree

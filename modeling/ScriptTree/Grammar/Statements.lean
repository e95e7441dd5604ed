import ScriptTree.Grammar.Expressions

/-!
Statements and declarators.
-/

namespace ScriptTree

namespace Grammar

def compound : Clause :=
  nodeOf .compoundStatement
    [expect .leftBrace, bodyItems (.call .statement), .close .rightBrace]

def statementIn (field : Field) : Clause :=
  inSlot field (.call .statement)

def keywordStatement (kind : Kind) : Clause :=
  nodeOf kind [token, expect .semicolon]

def expressionStatement : Clause :=
  nodeOf .expressionStatement [expression, expect .semicolon]

def arraySize : Clause :=
  inSlot .size (nodeOf .arraySize
    [token, whenNot (.sees .rightBracket) (expressionIn .value), expect .rightBracket])

def initialValue : Clause :=
  .branch (.sees .leftBrace) (inSlot .value (.call .initializers)) (expressionIn .value)

def initializer : Clause :=
  when (.sees .eq) (.seq token initialValue)

def declarator : Clause :=
  inSlot .declarator <| .node <| steps
    [name .name,
     .branch (.sees .leftBracket)
      (steps [.loop (.sees .leftBracket) arraySize, initializer, .choose .arrayDeclarator])
      (steps [initializer, .choose .variableDeclarator])]

def declarators : Clause :=
  commaSeparated (.call .declarator)

/-- The head of a local declaration: a type, and a name behind it. Only with both ahead is a node
begun at all, since a node that is begun cannot be given up for one of an expression here; the
declaration then reads the type once more, to the same effect. -/
def localHead : Clause :=
  .seq typeQualifier (.both typeSpec (check (.sees .name)))

def localDeclaration : Clause :=
  nodeOf .localDeclaration [typeQualifier, typeSpec, declarators, expect .semicolon]

def letDeclaration : Clause :=
  nodeOf .letDeclaration
    [token, name .name, expect .eq, expressionIn .value, expect .semicolon]

def staticArray : Clause :=
  nodeOf .staticArrayStatement [token, token, typeSpec, .call .declarator, expect .semicolon]

def multiAssignment : Clause :=
  nodeOf .multiAssignmentStatement
    [inSlot .targets (nodeOf .assignmentTargets
      [delimited .leftBracket .rightBracket "expected an assignment target" expressionFirst
        (expressionIn .value)]),
     expect .eq, expressionIn .value, expect .semicolon]

def condition : Clause :=
  steps [expect .leftParen, expressionIn .condition, expect .rightParen]

def ifStatement : Clause :=
  nodeOf .ifStatement
    [token, condition, statementIn .consequence,
     when (.sees .elseKw)
      (inSlot .alternative (nodeOf .elseClause [token, .call .statement]))]

def switchStatement : Clause :=
  nodeOf .switchStatement
    [token, expect .leftParen, expressionIn .value, expect .rightParen,
     inSlot .body (nodeOf .switchBody
      [expect .leftBrace, bodyItems (.call .statement), .close .rightBrace])]

def loopStatement (kind : Kind) : Clause :=
  nodeOf kind [token, condition, statementIn .body]

def doStatement : Clause :=
  nodeOf .doStatement
    [token, statementIn .body,
     .branch (.seesAny [.whileKw, .untilKw]) token (.missing "`while` or `until`"),
     condition, expect .semicolon]

/-- What a counting loop starts with: declarations if a type and a name stand there, and
expressions otherwise. -/
def forInitializer : Clause :=
  inSlot .initializer (nodeOf .forInitializer
    [.attempt (.both typeSpec (check (.sees .name))) declarators expressionList])

def forStatement : Clause :=
  nodeOf .forStatement
    [token, expect .leftParen,
     whenNot (.sees .semicolon) forInitializer,
     expect .semicolon,
     whenNot (.sees .semicolon) (expressionIn .condition),
     expect .semicolon,
     whenNot (.sees .rightParen) (inSlot .update (nodeOf .forUpdate [expressionList])),
     expect .rightParen, statementIn .body]

def foreachStatement : Clause :=
  nodeOf .foreachStatement
    [token, expect .leftParen,
     when (.and typeStart (.peek 1 (.ofList [.name, .lt, .dot]))) typeSpec,
     when (.next .comma) (steps [name .key, token]),
     name .name, expect .colon, expressionIn .iterable, expect .rightParen, statementIn .body]

def returnStatement : Clause :=
  nodeOf .returnStatement
    [token, whenNot (.sees .semicolon) expressionList, expect .semicolon]

def bareStatement : Clause :=
  cases
    [(.sees .leftBrace, .call .compound),
     (.sees .semicolon, nodeOf .emptyStatement [token]),
     (.sees .ifKw, ifStatement),
     (.sees .switchKw, switchStatement),
     (.sees .whileKw, loopStatement .whileStatement),
     (.sees .untilKw, loopStatement .untilStatement),
     (.sees .doKw, doStatement),
     (.sees .forKw, forStatement),
     (.sees .foreachKw, foreachStatement),
     (.sees .returnKw, returnStatement),
     (.sees .breakKw, keywordStatement .breakStatement),
     (.sees .continueKw, keywordStatement .continueStatement),
     (.sees .letKw, letDeclaration),
     (.sees .caseKw, nodeOf .caseLabel [token, expressionIn .value, expect .colon]),
     (.and (.sees .defaultKw) (.next .colon), nodeOf .defaultLabel [token, token]),
     (.and (.sees .staticKw) (.next .constKw), staticArray),
     (.sees .leftBracket, multiAssignment),
     (.seesAny [.name, .classKw, .readonlyKw, .constKw],
      .look localHead localDeclaration expressionStatement)]
    expressionStatement

def statement : Clause :=
  .nested bareStatement

end Grammar

end ScriptTree

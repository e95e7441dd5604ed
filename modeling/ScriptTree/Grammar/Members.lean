import ScriptTree.Grammar.Declarations
import ScriptTree.Grammar.States

/-!
Members of classes and structs: definitions of structs, enumerations and constants, properties,
flags and default settings, blocks of states, and declarations.
-/

namespace ScriptTree

namespace Grammar

def classFlags : List Kind :=
  [.abstractKw, .nativeKw, .playKw, .uiKw, .finalKw, .clearscopeKw]

def headerFlag : Clause :=
  cases
    [(.sees .replacesKw,
      nodeOf .replacesClause [token, when (.sees .name) (name .target)]),
     (.sees .sealedKw,
      nodeOf .classFlag
        [token, when (.sees .leftParen) (nameList "expected a class name" .target)]),
     (.sees .versionKw, versionMark .classFlag)]
    (nodeOf .classFlag [token])

def headerFlags : Clause :=
  let first : Test := .seesAny (.replacesKw :: .sealedKw :: .versionKw :: classFlags)
  inSlot .flags <| .node <|
    .branch first (.seq (.loop first headerFlag) (.choose .classHeaderFlags)) .reject

/-- A body of members in braces. It is one level of nesting, since it holds structs again. -/
def bracedBody (kind : Kind) : Clause :=
  inSlot .body <| nodeOf kind
    [.nested (.both (expect .leftBrace)
      (.seq (bodyItems (.call .member)) (.close .rightBrace)))]

def structDefinition : Clause :=
  nodeOf .structDefinition
    [token, name .name, headerFlags, bracedBody .structBody, eat .semicolon]

def enumerator : Clause :=
  nodeOf .enumerator
    [name .name, when (.sees .eq) (.seq token (expressionIn .value)),
     whenNot (.sees .rightBrace) (expect .comma)]

def enumDefinition : Clause :=
  nodeOf .enumDefinition
    [token, name .name, when (.sees .colon) (.seq token typeSpec),
     inSlot .body (nodeOf .enumBody
      [.both (expect .leftBrace) (.seq (bodyItems enumerator) (.close .rightBrace))]),
     eat .semicolon]

def constDefinition : Clause :=
  nodeOf .constDefinition
    [token, name .name, expect .eq, expressionIn .value, expect .semicolon]

def constStart : Test :=
  .and (.sees .constKw) (.and (.next .name) (.peek 2 (.single .eq)))

def propertyDefinition : Clause :=
  nodeOf .propertyDefinition
    [token, name .name, expect .colon, commaSeparated (name .target), expect .semicolon]

def flagDefinition : Clause :=
  nodeOf .flagDefinition
    [token, name .name, expect .colon, name .target, expect .comma, expressionIn .value,
     expect .semicolon]

def defaultItem : Clause :=
  cases
    [(.seesAny [.plus, .minus],
      nodeOf .flagSetting [tokenIn .operator, dottedName .name, eat .semicolon]),
     (.sees .name,
      nodeOf .propertyAssignment
        [dottedName .name, whenNot (.seesAny [.semicolon, .rightBrace]) expressionList,
         expect .semicolon]),
     (.sees .semicolon, token)]
    (errorToken (.missing "a property or flag"))

def defaultBlock : Clause :=
  nodeOf .defaultBlock
    [token, expect .leftBrace, bodyItems defaultItem, .close .rightBrace]

def member : Clause :=
  cases
    [(.sees .enumKw, enumDefinition),
     (.sees .structKw, structDefinition),
     (constStart, constDefinition),
     (.sees .statesKw, statesBlock),
     (.and (.sees .defaultKw) (.next .leftBrace), defaultBlock),
     (.sees .propertyKw, propertyDefinition),
     (.sees .flagdefKw, flagDefinition),
     (.sees .mixinKw, nodeOf .mixinStatement [token, name .name, expect .semicolon]),
     (.sees .semicolon, errorToken (.refuse "expected a member, found `;`"))]
    (.call .declaration)

end Grammar

end ScriptTree

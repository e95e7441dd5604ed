import ScriptTree.Grammar.Statements

/-!
Declarations of functions and fields, which stand in files, classes and structs. Whether a
declaration in the shape of a call is a function shows only behind its parameters, so both readings
are tried.
-/

namespace ScriptTree

namespace Grammar

def plainModifiers : List Kind :=
  [.nativeKw, .staticKw, .privateKw, .protectedKw, .virtualKw, .overrideKw, .finalKw, .abstractKw,
   .metaKw, .transientKw, .playKw, .uiKw, .clearscopeKw, .virtualscopeKw, .internalKw, .varargKw,
   .varKw]

def parameterModifiers : List Kind :=
  [.inKw, .outKw, .constKw]

def versionMark (kind : Kind) : Clause :=
  nodeOf kind [token, expect .leftParen, expectIn .string .version, expect .rightParen]

def modifierStart : Test :=
  .or (.and (.sees .readonlyKw) (.not (.next .lt)))
    (.seesAny (.actionKw :: .deprecatedKw :: .versionKw :: plainModifiers))

def declarationModifier : Clause :=
  cases
    [(.sees .actionKw,
      nodeOf .actionModifier
        [token, when (.sees .leftParen)
          (nodeOf .scopeList [nameList "expected an action scope" .scope])]),
     (.sees .deprecatedKw,
      nodeOf .deprecatedModifier
        [token, expect .leftParen, expectIn .string .version,
         when (.sees .comma) (.seq token (expectIn .string .message)), expect .rightParen]),
     (.sees .versionKw, versionMark .versionModifier)]
    (nodeOf .modifier [token])

def declarationModifiers : Clause :=
  inSlot .modifiers <| .node <|
    .branch modifierStart
      (.seq (.loop modifierStart declarationModifier) (.choose .declarationModifiers)) .reject

def returnTypes : Clause :=
  inSlot .returnTypes (nodeOf .returnTypes [commaSeparated typeSpec])

def parameter : Clause :=
  cases
    [(.sees .ellipsis, nodeOf .varargs [token]),
     (.and (.word ["void"]) (.next .rightParen), token)]
    (.node (.seq
      (.loop (.seesAny parameterModifiers)
        (inSlot .modifier (nodeOf .parameterModifier [token])))
      (.both typeSpec (steps
        [name .name, when (.sees .eq) (.seq token (expressionIn .value)), .choose .parameter]))))

def parameterFirst : KindSet :=
  .ofList [.name, .classKw, .readonlyKw, .inKw, .outKw, .constKw, .ellipsis]

def parameterList : Clause :=
  inSlot .parameters (nodeOf .parameterList
    [.branch (.sees .leftParen)
      (delimited .leftParen .rightParen "expected a parameter" parameterFirst parameter)
      (expect .leftParen)])

def functionRest : Clause :=
  steps
    [typeQualifier, returnTypes, name .name, parameterList,
     when (.sees .constKw) (nodeOf .constMethod [token]),
     cases
      [(.sees .leftBrace, inSlot .body (.call .compound)),
       (.sees .semicolon, token)]
      (.missing "a method body or `;`")]

def callDeclarator : Clause :=
  inSlot .declarator (nodeOf .variableDeclarator
    [inSlot .value (nodeOf .callExpr
      [inSlot .function (nodeOf .nameRef [token]), .call .arguments])])

def callFieldRest : Clause :=
  .seq typeQualifier <| .both typeSpec <| .branch (.sees .name)
    (steps
      [callDeclarator, .loop (.sees .comma) (steps [token, .call .declarator, .done]),
       expect .semicolon])
    .reject

def leadingTypes : Clause :=
  .seq typeQualifier returnTypes

def callShape : Clause :=
  .seq leadingTypes <|
    .branch (.sees .name) (.seq token (check (.sees .leftParen))) .reject

/-- A function or a field. A declaration in the shape of a call is a function if a body or a
semicolon follows the parameters, and otherwise a field initialised by a call; if it is neither,
that is reported and it is kept as a function. -/
def declaration : Clause :=
  .node <| .seq declarationModifiers <|
    .look callShape
      (.attempt functionRest (.choose .functionDefinition)
        (.attempt callFieldRest (.choose .fieldDeclaration)
          (steps
            [.blame leadingTypes functionRest, .absorb functionRest,
             .choose .functionDefinition])))
      (steps
        [typeQualifier, typeSpec, declarators, expect .semicolon, .choose .fieldDeclaration])

end Grammar

end ScriptTree

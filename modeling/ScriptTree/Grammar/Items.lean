import ScriptTree.Grammar.Members

/-!
Items: what stands at the top level of a file.
-/

namespace ScriptTree

namespace Grammar

def parentClass : Clause :=
  inSlot .parent (nodeOf .parentClass [token, name .name])

def openBody : Clause :=
  inSlot .body (nodeOf .classBody
    [token, .loop (.not (.sees .eof)) (.recover (.call .member))])

def classDefinition : Clause :=
  nodeOf .classDefinition
    [token, name .name, when (.sees .colon) parentClass, headerFlags,
     .branch (.sees .semicolon) openBody (bracedBody .classBody)]

def extensionTail (kind body : Kind) : Clause :=
  steps [token, name .name, bracedBody body, .choose kind]

def extension : Clause :=
  .node <| .seq token <| cases
    [(.sees .classKw, extensionTail .extendClass .classBody),
     (.sees .structKw, extensionTail .extendStruct .structBody)]
    (.seq (.missing "`class` or `struct`") (.choose .extendClass))

def item : Clause :=
  cases
    [(.sees .includeKw, nodeOf .includeDirective [token, expectIn .string .path]),
     (.and (.sees .versionKw) (.next .string),
      nodeOf .versionDirective [token, tokenIn .version, eat .semicolon]),
     (.and (.sees .classKw) (.not (.next .lt)), classDefinition),
     (.sees .structKw, structDefinition),
     (.sees .enumKw, enumDefinition),
     (constStart, constDefinition),
     (.sees .extendKw, extension),
     (.and (.sees .mixinKw) (.next .classKw),
      nodeOf .mixinClassDefinition [token, token, name .name, bracedBody .classBody]),
     (.sees .rightBrace, errorToken (.refuse "unmatched `\x7d`"))]
    (.call .declaration)

end Grammar

def grammar : Rule → Clause
  | .expression least => Grammar.climb least
  | .unary => Grammar.unary
  | .suffixed => Grammar.suffixed
  | .arguments => Grammar.arguments
  | .type => Grammar.type
  | .initializers => Grammar.initializers
  | .declarator => Grammar.declarator
  | .compound => Grammar.compound
  | .statement => Grammar.statement
  | .declaration => Grammar.declaration
  | .member => Grammar.member

end ScriptTree

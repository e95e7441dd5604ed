import ScriptTree.Literal
import ScriptTree.View.Expression

/-!
Views of files, classes, structs, enumerations, constants, functions and fields.
-/

namespace ScriptTree

variable {tree : Tree}

abbrev SourceFile (tree : Tree) := View tree (· == .sourceFile)

abbrev IncludeDirective (tree : Tree) := View tree (· == .includeDirective)

abbrev VersionDirective (tree : Tree) := View tree (· == .versionDirective)

abbrev ClassDefinition (tree : Tree) := View tree (· == .classDefinition)

abbrev ClassBody (tree : Tree) := View tree (· == .classBody)

abbrev StructDefinition (tree : Tree) := View tree (· == .structDefinition)

abbrev StructBody (tree : Tree) := View tree (· == .structBody)

abbrev EnumDefinition (tree : Tree) := View tree (· == .enumDefinition)

abbrev Enumerator (tree : Tree) := View tree (· == .enumerator)

abbrev ConstDefinition (tree : Tree) := View tree (· == .constDefinition)

abbrev FunctionDefinition (tree : Tree) := View tree (· == .functionDefinition)

abbrev FieldDeclaration (tree : Tree) := View tree (· == .fieldDeclaration)

abbrev DeclarationModifiers (tree : Tree) := View tree (· == .declarationModifiers)

abbrev ParameterList (tree : Tree) := View tree (· == .parameterList)

abbrev Parameter (tree : Tree) := View tree (· == .parameter)

abbrev DefaultBlock (tree : Tree) := View tree (· == .defaultBlock)

abbrev StatesBlock (tree : Tree) := View tree (· == .statesBlock)

abbrev CompoundStatement (tree : Tree) := View tree (· == .compoundStatement)

def View.stringIn? {p : Kind → Bool} (view : View tree p) (field : Field) : Option String := do
  let token ← view.token? field
  (QuotedLiteral.decodeString (tree.leafText token)).toOption

namespace SourceFile

def items (file : SourceFile tree) : List (Item tree) :=
  file.parts

def classes (file : SourceFile tree) : List (ClassDefinition tree) :=
  file.parts

end SourceFile

def IncludeDirective.path (directive : IncludeDirective tree) : Option String :=
  directive.stringIn? .path

def VersionDirective.version (directive : VersionDirective tree) : Option String :=
  directive.stringIn? .version

namespace ClassDefinition

def name (definition : ClassDefinition tree) : Option (Ident tree) :=
  definition.child? .name

def parent (definition : ClassDefinition tree) : Option (Ident tree) := do
  let clause ← tree.nodeIn? definition.node .parent
  View.inSlot? tree clause .name

def replaces (definition : ClassDefinition tree) : Option (Ident tree) := do
  let flags ← tree.nodeIn? definition.node .flags
  let clause ← (tree.childNodes flags).find? fun child => tree.kind child == .replacesClause
  View.inSlot? tree clause .target

def hasFlag (definition : ClassDefinition tree) (keyword : Kind) : Bool :=
  match tree.nodeIn? definition.node .flags with
  | none => false
  | some flags =>
    (tree.descendants flags).any fun node =>
      tree.kind node == .classFlag && (tree.tokenOf? node keyword).isSome

def body (definition : ClassDefinition tree) : Option (ClassBody tree) :=
  definition.child? .body

end ClassDefinition

namespace ClassBody

def members (body : ClassBody tree) : List NodeId :=
  tree.childNodes body.node

def functions (body : ClassBody tree) : List (FunctionDefinition tree) :=
  body.parts

def fields (body : ClassBody tree) : List (FieldDeclaration tree) :=
  body.parts

def states (body : ClassBody tree) : List (StatesBlock tree) :=
  body.parts

def defaultBlock (body : ClassBody tree) : Option (DefaultBlock tree) :=
  body.parts.head?

def isBraceless (body : ClassBody tree) : Bool :=
  (tree.tokenOf? body.node .leftBrace).isNone

end ClassBody

namespace StructDefinition

def name (definition : StructDefinition tree) : Option (Ident tree) :=
  definition.child? .name

def body (definition : StructDefinition tree) : Option (StructBody tree) :=
  definition.child? .body

end StructDefinition

def StructBody.members (body : StructBody tree) : List NodeId :=
  tree.childNodes body.node

namespace EnumDefinition

def name (definition : EnumDefinition tree) : Option (Ident tree) :=
  definition.child? .name

def enumerators (definition : EnumDefinition tree) : List (Enumerator tree) :=
  match tree.nodeIn? definition.node .body with
  | none => []
  | some body => View.below tree body

end EnumDefinition

namespace Enumerator

def name (enumerator : Enumerator tree) : Option (Ident tree) :=
  enumerator.child? .name

def value (enumerator : Enumerator tree) : Option (Expression tree) :=
  enumerator.child? .value

end Enumerator

namespace ConstDefinition

def name (definition : ConstDefinition tree) : Option (Ident tree) :=
  definition.child? .name

def value (definition : ConstDefinition tree) : Option (Expression tree) :=
  definition.child? .value

end ConstDefinition

namespace FunctionDefinition

def name (function : FunctionDefinition tree) : Option (Ident tree) :=
  function.child? .name

def modifiers (function : FunctionDefinition tree) : Option (DeclarationModifiers tree) :=
  function.child? .modifiers

def returnTypes (function : FunctionDefinition tree) : List (TypeSpec tree) :=
  match tree.nodeIn? function.node .returnTypes with
  | none => []
  | some types => View.inSlot tree types .type

def parameters (function : FunctionDefinition tree) : Option (ParameterList tree) :=
  function.child? .parameters

def isConst (function : FunctionDefinition tree) : Bool :=
  function.hasPart .constMethod

def body (function : FunctionDefinition tree) : Option (CompoundStatement tree) :=
  function.child? .body

end FunctionDefinition

namespace DeclarationModifiers

def keywords (modifiers : DeclarationModifiers tree) : List Kind :=
  View.firstKinds tree (tree.childNodes modifiers.node)

def contains (modifiers : DeclarationModifiers tree) (keyword : Kind) : Bool :=
  modifiers.keywords.contains keyword

end DeclarationModifiers

namespace ParameterList

def parameters (list : ParameterList tree) : List (Parameter tree) :=
  list.parts

def isVariadic (list : ParameterList tree) : Bool :=
  list.hasPart .varargs

end ParameterList

namespace Parameter

def name (parameter : Parameter tree) : Option (Ident tree) :=
  parameter.child? .name

def type (parameter : Parameter tree) : Option (TypeSpec tree) :=
  parameter.child? .type

def modifiers (parameter : Parameter tree) : List Kind :=
  View.firstKinds tree (tree.nodesIn parameter.node .modifier)

def defaultValue (parameter : Parameter tree) : Option (Expression tree) :=
  parameter.child? .value

end Parameter

namespace FieldDeclaration

def modifiers (declaration : FieldDeclaration tree) : Option (DeclarationModifiers tree) :=
  declaration.child? .modifiers

def type (declaration : FieldDeclaration tree) : Option (TypeSpec tree) :=
  declaration.child? .type

def declarators (declaration : FieldDeclaration tree) : List (Declarator tree) :=
  declaration.children .declarator

end FieldDeclaration

end ScriptTree

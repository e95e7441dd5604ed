import ScriptTree.View.Definition

/-!
Views of statements.
-/

namespace ScriptTree

variable {tree : Tree}

abbrev ExpressionStatement (tree : Tree) := View tree (· == .expressionStatement)

abbrev LocalDeclaration (tree : Tree) := View tree (· == .localDeclaration)

abbrev IfStatement (tree : Tree) := View tree (· == .ifStatement)

abbrev ReturnStatement (tree : Tree) := View tree (· == .returnStatement)

def CompoundStatement.statements (block : CompoundStatement tree) : List (Statement tree) :=
  block.parts

def ExpressionStatement.expression (statement : ExpressionStatement tree) :
    Option (Expression tree) :=
  statement.parts.head?

namespace LocalDeclaration

def type (declaration : LocalDeclaration tree) : Option (TypeSpec tree) :=
  declaration.child? .type

def declarators (declaration : LocalDeclaration tree) : List (Declarator tree) :=
  declaration.children .declarator

end LocalDeclaration

namespace IfStatement

def condition (statement : IfStatement tree) : Option (Expression tree) :=
  statement.child? .condition

def consequence (statement : IfStatement tree) : Option (Statement tree) :=
  statement.child? .consequence

def alternative (statement : IfStatement tree) : Option (Statement tree) := do
  let clause ← tree.nodeIn? statement.node .alternative
  (View.below tree clause).head?

end IfStatement

def ReturnStatement.values (statement : ReturnStatement tree) : List (Expression tree) :=
  statement.children .value

end ScriptTree

import ScriptTree.Kind.Class
import ScriptTree.Tree.Walk

/-!
Typed views: a node together with the fact that its kind is one of those that a view is for.
What a view gives access to may be missing from a tree, so accessors give options and lists.
-/

namespace ScriptTree

structure View (tree : Tree) (fits : Kind → Bool) where
  node : NodeId
  isFit : fits (tree.kind node) = true

namespace View

variable {tree : Tree} {p q : Kind → Bool}

def cast? (tree : Tree) {p : Kind → Bool} (node : NodeId) : Option (View tree p) :=
  if isFit : p (tree.kind node) = true then some ⟨node, isFit⟩ else none

def inSlot? (tree : Tree) {p : Kind → Bool} (node : NodeId) (field : Field) :
    Option (View tree p) :=
  (tree.nodeIn? node field).bind (cast? tree)

def inSlot (tree : Tree) {p : Kind → Bool} (node : NodeId) (field : Field) :
    List (View tree p) :=
  (tree.nodesIn node field).filterMap (cast? tree)

def below (tree : Tree) {p : Kind → Bool} (node : NodeId) : List (View tree p) :=
  (tree.childNodes node).filterMap (cast? tree)

def child? (view : View tree p) (field : Field) : Option (View tree q) :=
  inSlot? tree view.node field

def children (view : View tree p) (field : Field) : List (View tree q) :=
  inSlot tree view.node field

def parts (view : View tree p) : List (View tree q) :=
  below tree view.node

def text (view : View tree p) : String :=
  tree.nodeText view.node

def token? (view : View tree p) (field : Field) : Option TokenId :=
  tree.tokenIn? view.node field

def hasPart (view : View tree p) (kind : Kind) : Bool :=
  (tree.childNodes view.node).any fun child => tree.kind child == kind

def firstKinds (tree : Tree) (nodes : List NodeId) : List Kind :=
  nodes.filterMap fun node => (tree.firstToken? node).map fun token => (tree.leaf token).kind

end View

abbrev Item (tree : Tree) := View tree Kind.isItem

abbrev TypeSpec (tree : Tree) := View tree Kind.isTypeSpecifier

abbrev Declarator (tree : Tree) := View tree Kind.isDeclarator

abbrev Statement (tree : Tree) := View tree Kind.isStatement

abbrev Expression (tree : Tree) := View tree Kind.isExpression

abbrev StateItem (tree : Tree) := View tree Kind.isStateItem

abbrev Ident (tree : Tree) := View tree (· == .ident)

abbrev DottedName (tree : Tree) := View tree (· == .dottedName)

namespace Ident

variable {tree : Tree}

def token (ident : Ident tree) : Option TokenId :=
  tree.firstToken? ident.node

end Ident

def DottedName.segments {tree : Tree} (name : DottedName tree) : List (Ident tree) :=
  name.parts

def View.nameText? {tree : Tree} {p : Kind → Bool} (view : View tree p) : Option String :=
  (tree.nodeIn? view.node .name).map tree.nodeText

end ScriptTree

import ScriptTree.Tree.Navigate

/-!
Outlines: a tree as nested records for other tools. An element carries the identifiers and numbers
of its kind and slot and its place without layout; a token also carries its text and, as extras,
the layout around it. The written form is JSON with the keys in a fixed order.
-/

namespace ScriptTree

structure Extra where
  kind : Kind
  span : Span
  text : String
  deriving DecidableEq, Repr, Inhabited

/-- An element of an outline. Nodes have no text and no extras, tokens no children. -/
inductive Outline where
  | element (kind : Kind) (field : Option Field) (span : Span) (text : Option String)
      (extras : List Extra) (children : List Outline)
  deriving Repr, Inhabited

namespace Tree

def extras (tree : Tree) (id : TokenId) : List Extra :=
  (tree.leading id ++ tree.trailing id).map fun entry =>
    ⟨entry.kind.toKind, entry.span, tree.read entry.span⟩

def outlineLeaf (tree : Tree) (id : TokenId) : Outline :=
  let leaf := tree.leaf id
  .element leaf.kind leaf.field leaf.span (some (tree.leafText id)) (tree.extras id) []

def outlineUpTo (tree : Tree) (id : NodeId) : Nat → Outline
  | 0 => .element (tree.kind id) (tree.node id).field (tree.trimmedSpan id) none [] []
  | limit + 1 =>
    let children := (tree.elements id).map fun
      | .node child => tree.outlineUpTo child limit
      | .token child => tree.outlineLeaf child
    .element (tree.kind id) (tree.node id).field (tree.trimmedSpan id) none [] children

/-- The outline of a tree. No branch is longer than the number of nodes. -/
def outline (tree : Tree) : Outline :=
  tree.outlineUpTo root tree.nodeCount

end Tree

end ScriptTree

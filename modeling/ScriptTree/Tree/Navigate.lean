import ScriptTree.Tree

/-!
Moving about in a tree: parents, children, slots and neighbours.
-/

namespace ScriptTree

namespace Element

def node? : Element → Option NodeId
  | .node id => some id
  | .token _ => none

def token? : Element → Option TokenId
  | .node _ => none
  | .token id => some id

end Element

namespace Tree

def parent? (tree : Tree) (id : NodeId) : Option NodeId :=
  (tree.node id).parent

def ancestorsUpTo (tree : Tree) (id : NodeId) : Nat → List NodeId
  | 0 => []
  | limit + 1 =>
    id :: match tree.parent? id with
      | none => []
      | some parent => tree.ancestorsUpTo parent limit

def ancestors (tree : Tree) (id : NodeId) : List NodeId :=
  tree.ancestorsUpTo id tree.nodeCount

def childNodes (tree : Tree) (id : NodeId) : List NodeId :=
  (tree.elements id).filterMap Element.node?

def childTokens (tree : Tree) (id : NodeId) : List TokenId :=
  (tree.elements id).filterMap Element.token?

def elementKind (tree : Tree) : Element → Kind
  | .node id => tree.kind id
  | .token id => (tree.leaf id).kind

def elementField (tree : Tree) : Element → Option Field
  | .node id => (tree.node id).field
  | .token id => (tree.leaf id).field

def elementSpan (tree : Tree) : Element → Span
  | .node id => tree.nodeSpan id
  | .token id => tree.leafSpan id

def elementText (tree : Tree) : Element → String
  | .node id => tree.nodeText id
  | .token id => tree.leafText id

def renderElement (tree : Tree) : Element → String
  | .node id => tree.renderNode id
  | .token id => tree.renderLeaf id

def nodesIn (tree : Tree) (id : NodeId) (field : Field) : List NodeId :=
  (tree.childNodes id).filter fun child => (tree.node child).field == some field

def nodeIn? (tree : Tree) (id : NodeId) (field : Field) : Option NodeId :=
  (tree.childNodes id).find? fun child => (tree.node child).field == some field

def tokenIn? (tree : Tree) (id : NodeId) (field : Field) : Option TokenId :=
  (tree.childTokens id).find? fun child => (tree.leaf child).field == some field

def elementIn? (tree : Tree) (id : NodeId) (field : Field) : Option Element :=
  (tree.elements id).find? fun child => tree.elementField child == some field

def tokenOf? (tree : Tree) (id : NodeId) (kind : Kind) : Option TokenId :=
  (tree.childTokens id).find? fun child => (tree.leaf child).kind == kind

def previousToken? (_ : Tree) (id : TokenId) : Option TokenId :=
  if id = 0 then none else some (id - 1)

def nextToken? (tree : Tree) (id : TokenId) : Option TokenId :=
  if id + 1 < tree.leafCount then some (id + 1) else none

end Tree

end ScriptTree

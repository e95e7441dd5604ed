import ScriptTree.Field
import ScriptTree.Text.Quoted
import ScriptTree.Text.Slice
import ScriptTree.Trivia

/-!
Source trees. A tree owns its text and four flat tables: nodes in preorder, tokens and pieces of
layout in source order, and the children of all nodes, those of one node side by side. Nodes and
tokens are referred to by their position in their table.
-/

namespace ScriptTree

abbrev NodeId := Nat

abbrev TokenId := Nat

inductive Element where
  | node (id : NodeId)
  | token (id : TokenId)
  deriving DecidableEq, Repr, Inhabited

structure Run where
  first : Nat
  count : Nat
  deriving DecidableEq, Repr, Inhabited

def Run.positions (run : Run) : List Nat :=
  List.range' run.first run.count

structure Node where
  kind : Kind
  field : Option Field
  parent : Option NodeId
  children : Run
  tokens : Run
  span : Span
  deriving DecidableEq, Repr, Inhabited

structure Leaf where
  kind : Kind
  field : Option Field
  parent : NodeId
  span : Span
  leading : Run
  trailing : Run
  deriving DecidableEq, Repr, Inhabited

structure TriviaEntry where
  kind : TriviaKind
  span : Span
  deriving DecidableEq, Repr, Inhabited

structure Tree where
  text : String
  nodes : Array Node
  leaves : Array Leaf
  trivia : Array TriviaEntry
  children : Array Element
  deriving DecidableEq, Repr, Inhabited

namespace Tree

def root : NodeId :=
  0

def node (tree : Tree) (id : NodeId) : Node :=
  tree.nodes.getD id default

def leaf (tree : Tree) (id : TokenId) : Leaf :=
  tree.leaves.getD id default

def triviaEntry (tree : Tree) (position : Nat) : TriviaEntry :=
  tree.trivia.getD position default

def nodeCount (tree : Tree) : Nat :=
  tree.nodes.size

def leafCount (tree : Tree) : Nat :=
  tree.leaves.size

def kind (tree : Tree) (id : NodeId) : Kind :=
  (tree.node id).kind

def leading (tree : Tree) (id : TokenId) : List TriviaEntry :=
  (tree.leaf id).leading.positions.map tree.triviaEntry

def trailing (tree : Tree) (id : TokenId) : List TriviaEntry :=
  (tree.leaf id).trailing.positions.map tree.triviaEntry

def leafSpan (tree : Tree) (id : TokenId) : Span :=
  let span := (tree.leaf id).span
  let first := (tree.leading id).head?.map (·.span.start)
  let last := (tree.trailing id).getLast?.map (·.span.stop)
  ⟨first.getD span.start, last.getD span.stop⟩

def nodeSpan (tree : Tree) (id : NodeId) : Span :=
  (tree.node id).span

def firstToken? (tree : Tree) (id : NodeId) : Option TokenId :=
  let run := (tree.node id).tokens
  if run.count = 0 then none else some run.first

def lastToken? (tree : Tree) (id : NodeId) : Option TokenId :=
  let run := (tree.node id).tokens
  if run.count = 0 then none else some (run.first + run.count - 1)

def tokensBelow (tree : Tree) (id : NodeId) : List TokenId :=
  (tree.node id).tokens.positions

/-- The span of a node without the layout at its ends. A node without tokens keeps its place. -/
def trimmedSpan (tree : Tree) (id : NodeId) : Span :=
  match tree.firstToken? id, tree.lastToken? id with
  | some first, some last => (tree.leaf first).span.through (tree.leaf last).span
  | _, _ => tree.nodeSpan id

def read (tree : Tree) (span : Span) : String :=
  span.read tree.text

def leafText (tree : Tree) (id : TokenId) : String :=
  tree.read (tree.leaf id).span

def nodeText (tree : Tree) (id : NodeId) : String :=
  tree.read (tree.trimmedSpan id)

def isReadable (tree : Tree) : Bool :=
  (tree.leaves.all fun leaf => (leaf.span.read? tree.text).isSome) &&
    tree.trivia.all fun piece => (piece.span.read? tree.text).isSome

def elements (tree : Tree) (id : NodeId) : List Element :=
  let run := (tree.node id).children
  (tree.children.extract run.first (run.first + run.count)).toList

def roundTrips (tree : Tree) : Bool :=
  String.join ((List.range tree.leafCount).map fun id => tree.read (tree.leafSpan id)) == tree.text

def renderPlace (kind : Kind) (span : Span) : String :=
  kind.label ++ "@" ++ span.render

def renderNode (tree : Tree) (id : NodeId) : String :=
  renderPlace (tree.kind id) (tree.nodeSpan id)

def renderLeaf (tree : Tree) (id : TokenId) : String :=
  renderPlace (tree.leaf id).kind (tree.leaf id).span ++ " " ++ Text.quote (tree.leafText id)

def renderTrivia (tree : Tree) (entry : TriviaEntry) : String :=
  renderPlace entry.kind.toKind entry.span ++ " " ++ Text.quote (tree.read entry.span)

end Tree

end ScriptTree

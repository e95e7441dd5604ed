import ScriptTree.Tree

/-!
Building a tree from the outside in: nodes are started and finished like brackets, and tokens are
laid one after the other onto the text. What does not make a tree of the text is refused, and so is
a tree with more entries than numbers of 32 bits can count.
-/

namespace ScriptTree

/-- One step of building: a node starts, a token with its layout is laid down, or the node that
was started last is finished. Sizes are in bytes. -/
inductive BuildStep where
  | start (kind : Kind) (field : Option Field)
  | token (leading : List Piece) (kind : Kind) (size : Nat) (trailing : List Piece)
      (field : Option Field)
  | finish
  deriving DecidableEq, Repr, Inhabited

inductive BuildError where
  | secondRoot | noOpenNode | splitCharacter | tooLong | unfinishedNode | noRoot | uncovered
  | tooMany | misused
  deriving DecidableEq, Repr, Inhabited

structure OpenNode where
  id : NodeId
  children : List Element
  deriving DecidableEq, Repr, Inhabited

structure Builder where
  text : String
  nodes : Array Node
  leaves : Array Leaf
  trivia : Array TriviaEntry
  children : Array Element
  opened : List OpenNode
  offset : Nat
  deriving DecidableEq, Repr, Inhabited

namespace Builder

def empty (text : String) : Builder :=
  { text, nodes := #[], leaves := #[], trivia := #[], children := #[], opened := [], offset := 0 }

def addChild (opened : List OpenNode) (child : Element) : List OpenNode :=
  match opened with
  | [] => []
  | inner :: outer => { inner with children := child :: inner.children } :: outer

def start (builder : Builder) (kind : Kind) (field : Option Field) : Except BuildError Builder :=
  let id := builder.nodes.size
  let parent := builder.opened.head?.map (·.id)
  if parent.isNone && id != 0 then .error .secondRoot
  else
    let node : Node :=
      { kind, field, parent
        children := ⟨0, 0⟩
        tokens := ⟨builder.leaves.size, 0⟩
        span := Span.point builder.offset }
    .ok { builder with
      nodes := builder.nodes.push node
      opened := ⟨id, []⟩ :: addChild builder.opened (.node id) }

def layTrivia (builder : Builder) (pieces : List Piece) : Builder × Run :=
  let run : Run := ⟨builder.trivia.size, pieces.length⟩
  let laid := pieces.foldl
    (fun (builder : Builder) piece =>
      { builder with
        trivia := builder.trivia.push ⟨piece.kind, Span.sized builder.offset piece.size⟩
        offset := builder.offset + piece.size })
    builder
  (laid, run)

/-- Lays down a token in the innermost open node. An offset has 32 bits. -/
def token (builder : Builder) (leading : List Piece) (kind : Kind) (size : Nat)
    (trailing : List Piece) (field : Option Field) : Except BuildError Builder :=
  match builder.opened with
  | [] => .error .noOpenNode
  | inner :: _ =>
    let (builder, leading) := builder.layTrivia leading
    let span := Span.sized builder.offset size
    if Span.isBoundary builder.text span.stop then
      let (builder, trailing) := { builder with offset := span.stop }.layTrivia trailing
      let id := builder.leaves.size
      if UInt32.size ≤ builder.offset then .error .tooLong
      else
        .ok { builder with
          leaves := builder.leaves.push { kind, field, parent := inner.id, span, leading, trailing }
          opened := addChild builder.opened (.token id) }
    else
      .error .splitCharacter

def finishNode (builder : Builder) : Except BuildError Builder :=
  match builder.opened with
  | [] => .error .noOpenNode
  | inner :: outer =>
    let children : Run := ⟨builder.children.size, inner.children.length⟩
    let leafCount := builder.leaves.size
    let stop := builder.offset
    .ok { builder with
      nodes := builder.nodes.modify inner.id fun node =>
        { node with
          children
          tokens := ⟨node.tokens.first, leafCount - node.tokens.first⟩
          span := ⟨node.span.start, stop⟩ }
      children := builder.children ++ inner.children.reverse
      opened := outer }

def step (builder : Builder) : BuildStep → Except BuildError Builder
  | .start kind field => builder.start kind field
  | .token leading kind size trailing field => builder.token leading kind size trailing field
  | .finish => builder.finishNode

def run (builder : Builder) (steps : List BuildStep) : Except BuildError Builder :=
  steps.foldlM step builder

def isClosed (builder : Builder) : Bool :=
  builder.opened.isEmpty

def finish (builder : Builder) : Except BuildError Tree :=
  if !builder.isClosed then .error .unfinishedNode
  else if builder.nodes.isEmpty then .error .noRoot
  else if builder.offset != builder.text.utf8ByteSize then .error .uncovered
  else .ok
    { text := builder.text
      nodes := builder.nodes
      leaves := builder.leaves
      trivia := builder.trivia
      children := builder.children }

end Builder

def Tree.assemble (text : String) (steps : List BuildStep) : Except BuildError Tree := do
  let builder ← (Builder.empty text).run steps
  builder.finish

-- A run is stored as its first entry and its length, and is read up to the sum of both.
def Run.numbers (run : Run) : List Nat :=
  [run.first, run.count, run.first + run.count]

-- The tokens of a node are stored as the two ends of a range, so the second end counts here.
def Node.numbers (node : Node) : List Nat :=
  node.parent.toList ++ node.children.numbers ++
    [node.tokens.first, node.tokens.first + node.tokens.count]

def Leaf.numbers (leaf : Leaf) : List Nat :=
  leaf.parent :: (leaf.leading.numbers ++ leaf.trailing.numbers)

def Element.number : Element → Nat
  | .node id => id
  | .token id => id

namespace Tree

def numbers (tree : Tree) : List Nat :=
  tree.nodes.toList.flatMap Node.numbers ++ tree.leaves.toList.flatMap Leaf.numbers ++
    tree.children.toList.map Element.number

def isCompact (tree : Tree) : Bool :=
  tree.numbers.all fun number => number < UInt32.size

/-- A tree with numbers of 32 bits. Larger ones would lose their upper bits in the tables. -/
def compact (tree : Tree) : Except BuildError Tree :=
  if tree.isCompact then .ok tree else .error .tooMany

def build (text : String) (steps : List BuildStep) : Except BuildError Tree := do
  let tree ← assemble text steps
  tree.compact

end Tree

end ScriptTree

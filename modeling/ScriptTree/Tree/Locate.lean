import ScriptTree.Tree.Navigate

/-!
Finding elements by place: the tokens at an offset, the smallest element around a span, and nodes
that are remembered by their kind and span.
-/

namespace ScriptTree

inductive TokensAt where
  | none
  | single (token : TokenId)
  | between (left right : TokenId)
  deriving DecidableEq, Repr, Inhabited

namespace TokensAt

def toList : TokensAt → List TokenId
  | .none => []
  | .single token => [token]
  | .between left right => [left, right]

def left? : TokensAt → Option TokenId
  | .none => Option.none
  | .single token => some token
  | .between left _ => some left

def right? : TokensAt → Option TokenId
  | .none => Option.none
  | .single token => some token
  | .between _ right => some right

end TokensAt

namespace Tree

/-- The tokens below a node that touch an offset. Tokens count with their layout, and each ends
where the next one starts. -/
def tokensAt (tree : Tree) (id : NodeId) (offset : Nat) : TokensAt :=
  let span := tree.nodeSpan id
  if offset < span.start || span.stop < offset then .none
  else
    let tokens := tree.tokensBelow id
    let before := tokens.takeWhile fun token => (tree.leafSpan token).stop ≤ offset
    match tokens.drop before.length, before.getLast? with
    | [], some last => if (tree.leafSpan last).stop = offset then .single last else .none
    | [], none => .none
    | right :: _, some left =>
      if (tree.leafSpan left).stop = offset && (tree.leafSpan right).start = offset then
        .between left right
      else
        .single right
    | right :: _, none => .single right

def coveringChild? (tree : Tree) (id : NodeId) (span : Span) : Option Element :=
  (tree.elements id).find? fun child => (tree.elementSpan child).covers span

def coveringUpTo (tree : Tree) (id : NodeId) (span : Span) : Nat → Element
  | 0 => .node id
  | limit + 1 =>
    match tree.coveringChild? id span with
    | none => .node id
    | some (.token token) => .token token
    | some (.node child) => tree.coveringUpTo child span limit

def covering (tree : Tree) (id : NodeId) (span : Span) : Element :=
  tree.coveringUpTo id span tree.nodeCount

end Tree

/-- A node remembered by its kind and its span without layout. -/
structure NodePointer where
  kind : Kind
  span : Span
  deriving DecidableEq, Repr, Inhabited

namespace NodePointer

def ofNode (tree : Tree) (id : NodeId) : NodePointer :=
  ⟨tree.kind id, tree.trimmedSpan id⟩

/-- The node that a pointer means, searched from the root outwards around its span. Only the root
can be searched. -/
def resolve? (pointer : NodePointer) (tree : Tree) (root : NodeId) : Option NodeId :=
  if (tree.parent? root).isSome then none
  else
    let inner :=
      match tree.covering root pointer.span with
      | .node id => id
      | .token id => (tree.leaf id).parent
    (tree.ancestors inner).find? fun id =>
      tree.kind id == pointer.kind && tree.trimmedSpan id == pointer.span

end NodePointer

end ScriptTree

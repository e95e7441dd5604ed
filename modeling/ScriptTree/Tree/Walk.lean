import ScriptTree.Tree.Navigate

/-!
Walking a tree in preorder. A walk enters a node, visits its children in order and leaves it; while
it stands in a node just entered, the rest of that node can be skipped, and then the walk does not
report leaving it. A walk over the nodes only passes the tokens by.
-/

namespace ScriptTree

inductive Visit where
  | enter (node : NodeId)
  | leave (node : NodeId)
  | token (token : TokenId)
  deriving DecidableEq, Repr, Inhabited

structure Walk where
  pending : Option NodeId
  inside : List (NodeId × List Element)
  deriving DecidableEq, Repr, Inhabited

namespace Walk

def beginAt (start : NodeId) : Walk :=
  ⟨some start, []⟩

def next? (tree : Tree) (walk : Walk) : Option (Visit × Walk) :=
  match walk.inside with
  | [] =>
    walk.pending.map fun start => (.enter start, ⟨none, [(start, tree.elements start)]⟩)
  | (node, []) :: outer => some (.leave node, { walk with inside := outer })
  | (node, .node child :: rest) :: outer =>
    some (.enter child,
      { walk with inside := (child, tree.elements child) :: (node, rest) :: outer })
  | (node, .token child :: rest) :: outer =>
    some (.token child, { walk with inside := (node, rest) :: outer })

def ahead (walk : Walk) : Nat :=
  match walk.inside with
  | [] => 0
  | (_, children) :: _ => children.length

/-- A token is one of the children that are still to come. -/
theorem ahead_lt {tree : Tree} {walk after : Walk} {token : TokenId}
    (h : walk.next? tree = some (.token token, after)) : after.ahead < walk.ahead := by
  obtain ⟨pending, inside⟩ := walk
  match inside with
  | [] => cases pending <;> cases h
  | (_, []) :: _ => cases h
  | (_, .node _ :: _) :: _ => cases h
  | (_, .token _ :: rest) :: _ =>
    obtain ⟨-, rfl⟩ := Prod.mk.inj (Option.some.inj h)
    exact Nat.lt_succ_self rest.length

def nextNode? (tree : Tree) (walk : Walk) : Option (Visit × Walk) :=
  match _found : walk.next? tree with
  | some (.token _, after) => nextNode? tree after
  | report => report
termination_by walk.ahead
decreasing_by exact ahead_lt _found

/-- Skips what is left of the innermost node. There is nothing to skip before the walk begins and
after it ends. -/
def skipSubtree? (walk : Walk) : Option Walk :=
  match walk.inside with
  | [] => none
  | _ :: outer => some { walk with inside := outer }

def visitsUpTo (tree : Tree) (skips : NodeId → Bool) (walk : Walk) : Nat → List Visit
  | 0 => []
  | limit + 1 =>
    match walk.next? tree with
    | none => []
    | some (.enter node, walk) =>
      let walk := if skips node then walk.skipSubtree?.getD walk else walk
      .enter node :: visitsUpTo tree skips walk limit
    | some (visit, walk) => visit :: visitsUpTo tree skips walk limit

def nodeVisitsUpTo (tree : Tree) (skips : NodeId → Bool) (walk : Walk) : Nat → List Visit
  | 0 => []
  | limit + 1 =>
    match walk.nextNode? tree with
    | none => []
    | some (.enter node, walk) =>
      let walk := if skips node then walk.skipSubtree?.getD walk else walk
      .enter node :: nodeVisitsUpTo tree skips walk limit
    | some (visit, walk) => visit :: nodeVisitsUpTo tree skips walk limit

end Walk

namespace Tree

/-- The reports of a walk from `start` that skips the nodes chosen by `skips`. A walk enters and
leaves each node and visits each token once. -/
def visitsSkipping (tree : Tree) (start : NodeId) (skips : NodeId → Bool) : List Visit :=
  Walk.visitsUpTo tree skips (Walk.beginAt start) (2 * tree.nodeCount + tree.leafCount)

def visits (tree : Tree) (start : NodeId) : List Visit :=
  tree.visitsSkipping start fun _ => false

def nodeVisitsSkipping (tree : Tree) (start : NodeId) (skips : NodeId → Bool) : List Visit :=
  Walk.nodeVisitsUpTo tree skips (Walk.beginAt start) (2 * tree.nodeCount + tree.leafCount)

def nodeVisits (tree : Tree) (start : NodeId) : List Visit :=
  tree.nodeVisitsSkipping start fun _ => false

def descendants (tree : Tree) (start : NodeId) : List NodeId :=
  (tree.visits start).filterMap fun
    | .enter node => some node
    | _ => none

end Tree

end ScriptTree

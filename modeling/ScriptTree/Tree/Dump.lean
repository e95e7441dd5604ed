import ScriptTree.Tree.Walk

/-!
The dump of a tree: one line for each node, token and piece of layout, indented by depth. A child
that fills a slot is shown behind the name of the slot.
-/

namespace ScriptTree

namespace Tree

def indent (level : Nat) : String :=
  "".pushn ' ' (2 * level)

def slotMark (field : Option Field) : String :=
  match field with
  | none => ""
  | some field => field.identifier ++ ": "

def dumpNode (tree : Tree) (level : Nat) (id : NodeId) : String :=
  indent level ++ slotMark (tree.node id).field ++ renderPlace (tree.kind id) (tree.trimmedSpan id)

def dumpLeaf (tree : Tree) (level : Nat) (id : TokenId) : List String :=
  let layoutLine entry := indent level ++ tree.renderTrivia entry
  (tree.leading id).map layoutLine ++
    (indent level ++ slotMark (tree.leaf id).field ++ tree.renderLeaf id) ::
    (tree.trailing id).map layoutLine

def dumpVisits (tree : Tree) (visits : List Visit) : Array String :=
  let step : Array String × Nat → Visit → Array String × Nat := fun (lines, level) visit =>
    match visit with
    | .enter node => (lines.push (tree.dumpNode level node), level + 1)
    | .leave _ => (lines, level - 1)
    | .token token => (lines ++ tree.dumpLeaf level token, level)
  (visits.foldl step (#[], 0)).1

def dump (tree : Tree) : List String :=
  (tree.dumpVisits (tree.visits root)).toList

def kindCounts (tree : Tree) : List (Kind × Nat) :=
  let counts := tree.nodes.foldl
    (fun (counts : Array Nat) node => counts.modify node.kind.id (· + 1))
    (Array.replicate Kind.all.length 0)
  (Kind.all.map fun kind => (kind, counts.getD kind.id 0)).filter fun (_, count) => 0 < count

def summary (tree : Tree) : String :=
  "SyntaxTree \x7b text_len: " ++ toString tree.text.utf8ByteSize ++ ", nodes: " ++
    toString tree.nodeCount ++ ", .. \x7d"

end Tree

end ScriptTree

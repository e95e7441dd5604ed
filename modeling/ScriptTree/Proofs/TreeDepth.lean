import ScriptTree.Proofs.Grammar.File
import ScriptTree.Proofs.Parser.Nesting
import ScriptTree.Proofs.Tree.Family

/-!
How deep trees are. The limit of nesting bounds how deep the nodes of a tree lie in each other,
except for what is built without nesting: an operator or an access around the expression in front of
it, and a qualified type around its scope. Chains of these make trees of any depth.
-/

namespace ScriptTree

namespace Grammar

def chainKinds : KindSet :=
  .ofList
    [.binaryExpr, .assignmentExpr, .conditionalExpr, .callExpr, .indexExpr, .memberExpr, .scopeExpr,
     .postfixExpr, .qualifiedType]

end Grammar

namespace Tree

def isLeading (tree : Tree) (id : NodeId) : Bool :=
  match tree.parent? id with
  | none => false
  | some parent =>
    Grammar.chainKinds.contains (tree.kind parent) &&
      (tree.elements parent).head? == some (.node id)

/-- The steps from a node up to the root, except for those to a node that was put around the one
below it. -/
def nestedSteps (tree : Tree) (id : NodeId) : List NodeId :=
  (tree.ancestors id).filter fun step => (tree.parent? step).isSome && !tree.isLeading step

end Tree

namespace Shape

/-- Where no kind is chained, every node counts. -/
theorem nesting_unchained (kind : Kind) (field : Option Field) (children : List Shape) :
    (node kind field children).nesting .empty = nestingAll .empty children + 1 := by
  rw [nesting, if_neg (by rw [KindSet.contains_empty]; exact Bool.false_ne_true)]

/-- Shapes side by side are as deep as one of them. -/
theorem exists_nesting_eq {chained : KindSet} {shapes : List Shape}
    (h : nestingAll chained shapes ≠ 0) :
    ∃ before shape after, shapes = before ++ shape :: after ∧
      shape.nesting chained = nestingAll chained shapes := by
  induction shapes with
  | nil => exact absurd (nestingAll_nil chained) h
  | cons first rest ih =>
    rw [nestingAll] at h ⊢
    by_cases hle : nestingAll chained rest ≤ first.nesting chained
    · exact ⟨[], first, rest, rfl, by omega⟩
    · obtain ⟨before, shape, after, rfl, hshape⟩ := ih (by omega)
      exact ⟨first :: before, shape, after, rfl, by omega⟩

/-- A child is nested less deep than the node around it, unless it is the leading one. -/
theorem nesting_child_lt {chained : KindSet} {kind : Kind} (field : Option Field)
    {before : List Shape} (shape : Shape) (after : List Shape)
    (h : chained.contains kind = true → before ≠ []) :
    shape.nesting chained < (node kind field (before ++ shape :: after)).nesting chained := by
  rw [nesting]
  split
  · next hkind =>
    obtain ⟨first, rest, rfl⟩ := List.exists_cons_of_ne_nil (h hkind)
    rw [List.cons_append, nestingBehind, nestingAll_append, nestingAll]
    omega
  · rw [nestingAll_append, nestingAll]
    omega

/-- A node is nested at least as deep as its children. -/
theorem nesting_child_le (chained : KindSet) (kind : Kind) (field : Option Field)
    (before : List Shape) (shape : Shape) (after : List Shape) :
    shape.nesting chained ≤ (node kind field (before ++ shape :: after)).nesting chained := by
  cases before with
  | cons first rest => exact Nat.le_of_lt (nesting_child_lt field _ _ fun _ => List.cons_ne_nil _ _)
  | nil =>
    rw [List.nil_append, nesting]
    split
    · rw [nestingBehind]
      exact Nat.le_max_left _ _
    · rw [nestingAll]
      omega

theorem nesting_node_pos (chained : KindSet) (kind : Kind) (field : Option Field)
    (children : List Shape) : 0 < (node kind field children).nesting chained := by
  rw [nesting]
  split
  · cases children with
    | nil => simp [nestingBehind]
    | cons first rest =>
      rw [nestingBehind]
      omega
  · exact Nat.succ_pos _

end Shape

namespace Tree.Houses

variable {tree : Tree} {whole : Shape}

theorem nestedSteps_root (h : tree.Houses whole) : tree.nestedSteps root = [] := by
  obtain ⟨hlt, hparent⟩ := h.root_lt
  rw [nestedSteps, h.ancestors_eq hlt, hparent]
  simp [hparent]

theorem nestedSteps_of_parent (h : tree.Houses whole) {id parent : NodeId}
    (hid : id < tree.nodeCount) (hparent : tree.parent? id = some parent) :
    tree.nestedSteps id =
      if tree.isLeading id then tree.nestedSteps parent else id :: tree.nestedSteps parent := by
  rw [nestedSteps, h.ancestors_eq hid, List.filter_cons, hparent]
  cases tree.isLeading id <;> rfl

/-- The first child of a node of a chained kind is leading. -/
theorem isLeading_of_first (h : tree.Houses whole) {home : Option NodeId} {kind : Kind}
    {field : Option Field} {shape : Shape} {after : List Shape} {site : Site} {id : NodeId}
    (hpart : whole.Part home (.node kind field (shape :: after)) site)
    (hkind : Grammar.chainKinds.contains kind = true) (hid : shape.element site.inside = .node id)
    (hparent : tree.parent? id = some site.node) : tree.isLeading id = true := by
  obtain ⟨hlists, -⟩ := hpart.sits h.sits
  have hnode := (hpart.sits h.sits).kind_node
  have hhead : (tree.elements site.node).head? = some (.node id) := by
    rw [hlists.elements, Shape.elementsFrom, List.head?_cons, hid]
  simp only [isLeading, hparent, hnode, hkind, hhead, beq_self_eq_true, Bool.and_self]

/-- The steps above a part and the nesting within it are at most the nesting of the whole. -/
theorem length_nestedSteps_add_le (h : tree.Houses whole) {home : Option NodeId} {shape : Shape}
    {site : Site} (hpart : whole.Part home shape site) {id : NodeId}
    (hid : shape.element site = .node id) :
    (tree.nestedSteps id).length + shape.nesting Grammar.chainKinds ≤
      whole.nesting Grammar.chainKinds := by
  induction hpart generalizing id with
  | whole =>
    obtain ⟨kind, field, children, rfl⟩ := h.exists_whole
    obtain rfl : root = id := Element.node.inj hid
    rw [h.nestedSteps_root, List.length_nil, Nat.zero_add]
  | @child home kind field before after shape site hpart ih =>
    have habove := ih rfl
    have hsits := (Shape.Part.child hpart).sits h.sits
    have hhas := hsits.has
    have hparent := hsits.home?_element
    rw [hid] at hhas hparent
    rw [h.nestedSteps_of_parent hhas hparent]
    split
    · have hle := Shape.nesting_child_le Grammar.chainKinds kind field before shape after
      omega
    · next hleading =>
      have hfirst : Grammar.chainKinds.contains kind = true → before ≠ [] := by
        rintro hkind rfl
        exact hleading (h.isLeading_of_first hpart hkind (by simpa using hid) hparent)
      have hlt := Shape.nesting_child_lt field shape after hfirst
      rw [List.length_cons]
      omega

/-- Below a node lies one with as many further ancestors as nodes lie in each other there. -/
theorem exists_length_ancestors_add (h : tree.Houses whole) {depth : Nat} {home : Option NodeId}
    {kind : Kind} {field : Option Field} {children : List Shape} {site : Site}
    (hpart : whole.Part home (.node kind field children) site)
    (hdepth : Shape.nestingAll .empty children = depth) :
    ∃ id < tree.nodeCount,
      (tree.ancestors id).length = (tree.ancestors site.node).length + depth := by
  induction depth generalizing home kind field children site with
  | zero => exact ⟨site.node, (hpart.sits h.sits).has, rfl⟩
  | succ depth ih =>
    have hne : Shape.nestingAll .empty children ≠ 0 := hdepth ▸ Nat.succ_ne_zero depth
    obtain ⟨before, shape, after, rfl, hshape⟩ := Shape.exists_nesting_eq hne
    rw [hdepth] at hshape
    cases shape with
    | leaf token slot => cases hshape
    | node inner slot below =>
      have hchild := Shape.Part.child hpart
      have hinner := hchild.sits h.sits
      have hbelow : Shape.nestingAll .empty below = depth := by
        rw [Shape.nesting_unchained] at hshape
        exact Nat.succ.inj hshape
      obtain ⟨id, hid, hlength⟩ := ih hchild hbelow
      refine ⟨id, hid, ?_⟩
      have habove : (tree.ancestors (site.inside.pastAll before).node).length =
          (tree.ancestors site.node).length + 1 := by
        have hparent : tree.parent? (site.inside.pastAll before).node = some site.node :=
          hinner.home?_element
        rw [h.ancestors_eq hinner.has, hparent]
        rfl
      omega

/-- Some node has as many ancestors, itself among them, as nodes lie in each other in the whole. -/
theorem exists_length_ancestors (h : tree.Houses whole) :
    ∃ id < tree.nodeCount, (tree.ancestors id).length = whole.nesting .empty := by
  obtain ⟨kind, field, children, rfl⟩ := h.exists_whole
  obtain ⟨id, hid, hlength⟩ := h.exists_length_ancestors_add .whole rfl
  obtain ⟨hroot, hparent⟩ := h.root_lt
  refine ⟨id, hid, ?_⟩
  have hown : (tree.ancestors root).length = 1 := by
    rw [h.ancestors_eq hroot, hparent]
    rfl
  rw [hlength, Shape.nesting_unchained, Nat.add_comm]
  exact congrArg (_ + ·) hown

end Tree.Houses

namespace Grammar

open Phrase ParseState

def nodeLoads : Loads grammar opensNode where
  calls
    | .expression _ | .type | .initializers | .statement => 0
    | .compound | .declarator => 2
    | .arguments => 3
    | .suffixed | .unary => 5
    | .declaration => 6
    | .member => 9
  bound := 16
  rules rule := by
    cases rule with
    | expression least => cases least <;> decide
    | _ => decide

/-- What is put around an expression or a type is of the kinds listed for that. -/
theorem chainsInto_grammar (rule : Rule) : (grammar rule).chainsInto chainKinds = true := by
  cases rule with
  | expression least => cases least <;> decide
  | _ => decide

theorem chosen_grammar (rule : Rule) : (grammar rule).chosen = .empty := by
  cases rule with
  | expression least => cases least <;> rfl
  | _ => rfl

/-- The nodes of a file lie no deeper in each other than sixteen at each level of nesting. -/
theorem nesting_fileShape (text : String) (limit : Nat) :
    (fileShape text limit).nesting chainKinds ≤ 16 * (limit + 1) + 1 := by
  have hrules := nestingAll_drawRule_le nodeLoads chainsInto_grammar chosen_grammar
    (ruleBudget limit)
  have hfile : (nested fileItems).keepsLoad opensNode nodeLoads.calls nodeLoads.bound = true := by
    decide
  simp only [keepsLoad, Bool.and_eq_true, decide_eq_true_eq] at hfile
  have hitems := nestingAll_draw_le hrules (drawRule_ne_chose chosen_grammar (ruleBudget limit))
    hfile.2 (show fileItems.chainsInto chainKinds = true by decide) (ofText text limit)
  have hlevels : 16 * (limit + 1) = nodeLoads.bound + nodeLoads.bound * (limit - 0) := by
    show 16 * (limit + 1) = 16 + 16 * limit
    omega
  have hshape : (fileShape text limit).nesting chainKinds =
      Shape.nestingAll chainKinds (fileReading text limit).shapes + 1 := by
    rw [fileShape, Shape.nesting, if_neg (by decide), Shape.nestingAll_append,
      Shape.nestingAll_singleton, Shape.nesting, Nat.max_zero]
  rw [hshape, hlevels]
  exact Nat.succ_le_succ (Nat.le_trans hitems (Nat.add_le_add_right hfile.1 _))

end Grammar

open Grammar

/-- In the tree of every text, at most sixteen steps for each level up to the limit lead from a node
up to the root, not counting those to a node that was put around the one below it. -/
theorem parseWith_nestedSteps_le {text : String} (h : text.utf8ByteSize < 2 ^ 32) (limit : Nat) :
    ∃ parse, parseWith text limit = .ok parse ∧
      ∀ id < parse.tree.nodeCount, (parse.tree.nestedSteps id).length ≤ 16 * (limit + 1) := by
  obtain ⟨tree, hparse, -, -⟩ := parseWith_eq h limit
  have hhouses : tree.Houses (fileShape text limit) :=
    Tree.houses_node (assemble_of_parseWith hparse)
  refine ⟨_, hparse, fun id hid => ?_⟩
  obtain ⟨home, kind, field, children, site, hpart, rfl⟩ := hhouses.exists_node hid
  have hsteps := hhouses.length_nestedSteps_add_le hpart rfl
  have hfile := nesting_fileShape text limit
  have hnode := Shape.nesting_node_pos chainKinds kind field children
  show (tree.nestedSteps site.node).length ≤ _
  omega

def memberChain : String :=
  "class A;states{TNT1 A 0 a.a.a.a.a.a.a.a.a.a.a.a;}"

theorem parseWith_memberChain_nested :
    ∃ parse, parseWith memberChain 0 = .ok parse ∧
      ∀ id < parse.tree.nodeCount, (parse.tree.nestedSteps id).length ≤ 16 :=
  parseWith_nestedSteps_le (by decide) 0

/-- The limit does not bound the number of ancestors. -/
theorem ancestors_exceed_limit : ¬ ∀ (text : String) (limit : Nat) (parse : Parse),
    parseWith text limit = .ok parse → ∀ id < parse.tree.nodeCount,
      (parse.tree.ancestors id).tail.length ≤ 16 * (limit + 1) := by
  intro hall
  obtain ⟨tree, hparse, -, -⟩ :=
    parseWith_eq (show memberChain.utf8ByteSize < UInt32.size by decide) 0
  have hhouses : tree.Houses (fileShape memberChain 0) :=
    Tree.houses_node (assemble_of_parseWith hparse)
  have hdeep : 17 < (fileShape memberChain 0).nesting .empty := by decide +kernel
  obtain ⟨id, hid, hlength⟩ := hhouses.exists_length_ancestors
  have hbound : (tree.ancestors id).tail.length ≤ 16 := hall memberChain 0 _ hparse id hid
  rw [List.length_tail] at hbound
  omega

end ScriptTree

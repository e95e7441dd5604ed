import ScriptTree.Proofs.Grammar.Climb
import ScriptTree.Proofs.Reported
import ScriptTree.Tree.Navigate

/-!
Precedence and associativity: in the tree of a text without reports, every operation has operands
that its level allows, and prefixes and suffixes have operands that need no parentheses.
-/

namespace ScriptTree

open Grammar

namespace Tree

def levelOf? (tree : Tree) (id : NodeId) : Option Precedence :=
  if tree.kind id = .conditionalExpr then some .conditional
  else if tree.kind id = .binaryExpr ∨ tree.kind id = .assignmentExpr then
    (tree.tokenIn? id .operator).bind fun token => Precedence.ofBinary? (tree.leaf token).kind
  else none

/-- Operations stand as operands only where their level allows it. -/
structure Grouped (tree : Tree) : Prop where
  /-- Every operation has a level. -/
  level : ∀ id < tree.nodeCount, operations.contains (tree.kind id) = true →
    ∃ p, tree.levelOf? id = some p
  /-- On the left, an operation binds more tightly, or as tightly if its level groups to the
  left. -/
  left : ∀ id < tree.nodeCount, ∀ p, tree.levelOf? id = some p →
    ∀ slot, slot = .left ∨ slot = .condition → ∀ child ∈ tree.nodesIn id slot,
    ∀ q, tree.levelOf? child = some q → p.HoldsLeft q
  /-- On the right, an operation binds more tightly, or as tightly if its level groups to the
  right. -/
  right : ∀ id < tree.nodeCount, ∀ p, tree.levelOf? id = some p →
    ∀ slot, slot = .right ∨ slot = .alternative → ∀ child ∈ tree.nodesIn id slot,
    ∀ q, tree.levelOf? child = some q → p.HoldsRight q
  /-- The operand behind an operator or a cast is no operation. -/
  operand : ∀ id < tree.nodeCount, prefixes.contains (tree.kind id) = true →
    ∀ child ∈ tree.nodesIn id .operand, operations.contains (tree.kind child) = false
  /-- The operand in front of a suffix is no operation, and has no operand behind itself. -/
  base : ∀ id < tree.nodeCount, suffixes.contains (tree.kind id) = true →
    ∀ slot ∈ baseSlots, ∀ child ∈ tree.nodesIn id slot,
    operations.contains (tree.kind child) = false ∧ prefixes.contains (tree.kind child) = false

/-- The operator among the children of a node is the one among the shapes that they show. -/
theorem operator_eq {tree : Tree} {base : Nat} {shapes : List Shape} {elements : List Element}
    (h : Shape.ShownAll tree base shapes elements) :
    ((elements.filterMap Element.token?).find? fun id =>
      (tree.leaf id).field == some .operator).map (fun id => (tree.leaf id).kind) =
        Shape.operator? shapes := by
  induction shapes generalizing elements with
  | nil =>
    rw [Shape.ShownAll] at h
    rw [h]
    rfl
  | cons shape rest ih =>
    rw [Shape.ShownAll] at h
    obtain ⟨element, more, rfl, hshape, hrest⟩ := h
    cases shape with
    | node kind field children =>
      obtain ⟨id, node, elements, rfl, -⟩ := hshape
      have hnode : (Element.node id :: more).filterMap Element.token? =
          more.filterMap Element.token? := rfl
      rw [hnode, Shape.operator?]
      exact ih hrest
    | leaf token field =>
      obtain ⟨id, leaf, rfl, hleaf, hkind, hfield⟩ := hshape
      have htoken : (Element.token id :: more).filterMap Element.token? =
          id :: more.filterMap Element.token? := rfl
      rw [htoken, List.find?_cons, Tree.leaf_eq hleaf, hfield, Shape.operator?]
      by_cases ho : field = some .operator
      · simp [ho, Tree.leaf_eq hleaf, hkind]
      · have hb : (field == some .operator) = false := beq_eq_false_iff_ne.mpr ho
        rw [hb, if_neg ho]
        exact ih hrest

theorem levelOf?_eq {tree : Tree} {base : Nat} {kind : Kind} {field : Option Field}
    {children : List Shape} {id : NodeId}
    (h : Shape.Shown tree base (.node kind field children) (.node id)) :
    tree.levelOf? id = Shape.levelOf? kind children := by
  obtain ⟨hkind, hall⟩ := Tree.kind_eq h
  have hoperator := operator_eq hall
  rw [levelOf?, Shape.levelOf?, hkind, ← hoperator, Option.bind_map]
  rfl

/-- A child in a slot shows a child of the shape in that slot. -/
theorem exists_of_mem_nodesIn {tree : Tree} {base : Nat} {kind : Kind} {field : Option Field}
    {children : List Shape} {id : NodeId}
    (h : Shape.Shown tree base (.node kind field children) (.node id)) {slot : Field}
    {child : NodeId} (hmem : child ∈ tree.nodesIn id slot) :
    ∃ below, .node (tree.kind child) (some slot) below ∈ children ∧
      tree.levelOf? child = Shape.levelOf? (tree.kind child) below := by
  obtain ⟨hchild, hslot⟩ := List.mem_filter.mp hmem
  obtain ⟨element, helement, hnode⟩ := List.mem_filterMap.mp hchild
  obtain rfl : element = .node child := by
    cases element with
    | node id => exact congrArg Element.node (Option.some.inj hnode)
    | token id => cases hnode
  obtain ⟨shape, hshape, hshown⟩ := (Tree.kind_eq h).2.exists_of_mem helement
  cases shape with
  | leaf token field =>
    obtain ⟨id, leaf, he, -⟩ := hshown
    cases he
  | node inner field below =>
    obtain rfl : field = some slot := by
      obtain ⟨id, node, elements, he, -, hlists, -, hfield, -⟩ := hshown
      obtain rfl := Element.node.inj he
      rw [beq_iff_eq, Tree.node_eq hlists.entry, hfield] at hslot
      exact hslot
    rw [levelOf?_eq hshown, (Tree.kind_eq hshown).1]
    exact ⟨below, hshape, rfl⟩

/-- A tree is grouped if the shape that it draws is. -/
theorem Draws.grouped {tree : Tree} {shape : Shape} (h : tree.Draws shape)
    (hall : shape.All Shape.Grouped) : tree.Grouped := by
  have hnode : ∀ id < tree.nodeCount, ∃ base field children,
      Shape.Grouped (tree.kind id) children ∧
        Shape.Shown tree base (.node (tree.kind id) field children) (.node id) := by
    intro id hid
    obtain ⟨kind, field, children, hgrouped, hshown⟩ := h.covered _ hall id hid
    obtain rfl := (Tree.kind_eq hshown).1
    exact ⟨_, field, children, hgrouped, hshown⟩
  refine ⟨?_, ?_, ?_, ?_, ?_⟩
  · intro id hid hin
    obtain ⟨_, _, children, hgrouped, hshown⟩ := hnode id hid
    rw [levelOf?_eq hshown]
    exact hgrouped.level hin
  · intro id hid p hp slot hslot child hchild q hq
    obtain ⟨_, _, children, hgrouped, hshown⟩ := hnode id hid
    obtain ⟨below, hmem, hlevel⟩ := exists_of_mem_nodesIn hshown hchild
    exact hgrouped.left p q slot _ below ((levelOf?_eq hshown).symm.trans hp) hmem hslot
      (hlevel.symm.trans hq)
  · intro id hid p hp slot hslot child hchild q hq
    obtain ⟨_, _, children, hgrouped, hshown⟩ := hnode id hid
    obtain ⟨below, hmem, hlevel⟩ := exists_of_mem_nodesIn hshown hchild
    exact hgrouped.right p q slot _ below ((levelOf?_eq hshown).symm.trans hp) hmem hslot
      (hlevel.symm.trans hq)
  · intro id hid hin child hchild
    obtain ⟨_, _, children, hgrouped, hshown⟩ := hnode id hid
    obtain ⟨below, hmem, -⟩ := exists_of_mem_nodesIn hshown hchild
    exact hgrouped.operand hin _ below hmem
  · intro id hid hin slot hslot child hchild
    obtain ⟨_, _, children, hgrouped, hshown⟩ := hnode id hid
    obtain ⟨below, hmem, -⟩ := exists_of_mem_nodesIn hshown hchild
    exact hgrouped.base hin slot hslot _ below hmem

end Tree

/-- Where there is nothing to report, operators bind as their levels say. -/
theorem parse_grouped {text : String} {limit : Nat} {parse : Parse}
    (h : parseWith text limit = .ok parse) (hsilent : parse.diagnostics = []) :
    parse.tree.Grouped := by
  obtain ⟨tree, hparse, -, hdraws⟩ := parseWith_eq (size_lt_of_parseWith h) limit
  obtain rfl := Except.ok.inj (hparse.symm.trans h)
  have hlength := length_reports text limit
  have hnone : (readFile text limit).reports.length = 0 := List.length_eq_zero_iff.mpr hsilent
  have hreports : (fileReading text limit).reports = [] :=
    List.eq_nil_of_length_eq_zero (by omega)
  exact hdraws.grouped (grouped_fileShape hreports)

/-- A product stands in a sum, and a sum of sums groups to the left. -/
theorem parse_sum_grouped : ∃ parse, parseWith "const a=1+2*3-4;" 8 = .ok parse ∧
    parse.diagnostics = [] ∧ parse.tree.Grouped := by
  obtain ⟨tree, hparse, -⟩ :=
    parseWith_eq (show "const a=1+2*3-4;".utf8ByteSize < UInt32.size by decide) 8
  have hsilent : (readFile "const a=1+2*3-4;" 8).reports = [] := by decide +kernel
  exact ⟨_, hparse, hsilent, parse_grouped hparse hsilent⟩

end ScriptTree

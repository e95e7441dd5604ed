import ScriptTree.Proofs.Tree.Shape

/-!
How the tables of a tree show a shape: every element of the tree stands for a part of the shape, its
children for the children of that part. What is added to the tables later does not change what is
shown.
-/

namespace ScriptTree

namespace Tree

structure Lists (tree : Tree) (id : NodeId) (node : Node) (elements : List Element) : Prop where
  entry : tree.nodes[id]? = some node
  fits : node.children.first + node.children.count ≤ tree.children.size
  elements : tree.elements id = elements

structure Keeps (base : Nat) (tree tree' : Tree) : Prop where
  nodes : ∀ (id : NodeId) (node : Node), base ≤ id → tree.nodes[id]? = some node →
    tree'.nodes[id]? = some node
  leaves : ∀ (id : TokenId) (leaf : Leaf), tree.leaves[id]? = some leaf →
    tree'.leaves[id]? = some leaf
  children : ∃ more, tree'.children = tree.children ++ more

theorem node_eq {tree : Tree} {id : NodeId} {node : Node} (h : tree.nodes[id]? = some node) :
    tree.node id = node := by
  rw [Tree.node, Array.getD_eq_getD_getElem?, h]
  rfl

theorem leaf_eq {tree : Tree} {id : TokenId} {leaf : Leaf} (h : tree.leaves[id]? = some leaf) :
    tree.leaf id = leaf := by
  rw [Tree.leaf, Array.getD_eq_getD_getElem?, h]
  rfl

theorem Lists.keeps {tree tree' : Tree} {base : Nat} {id : NodeId} {node : Node}
    {elements : List Element} (h : tree.Lists id node elements) (hk : Keeps base tree tree')
    (hb : base ≤ id) : tree'.Lists id node elements := by
  obtain ⟨more, hmore⟩ := hk.children
  have hnode := hk.nodes id node hb h.entry
  refine ⟨hnode, ?_, ?_⟩
  · rw [hmore, Array.size_append]
    exact Nat.le_add_right_of_le h.fits
  · rw [← h.elements, Tree.elements, Tree.elements, node_eq hnode, node_eq h.entry, hmore,
      Array.extract_append, Nat.sub_eq_zero_of_le h.fits]
    simp

end Tree

namespace Shape

mutual

/-- An element of a tree stands for a shape. All nodes of the shape come from `base` on. -/
def Shown (tree : Tree) (base : Nat) : Shape → Element → Prop
  | .leaf token field, element =>
    ∃ id leaf, element = .token id ∧ tree.leaves[id]? = some leaf ∧ leaf.kind = token.kind ∧
      leaf.field = field
  | .node kind field children, element =>
    ∃ id node elements, element = .node id ∧ base ≤ id ∧ tree.Lists id node elements ∧
      node.kind = kind ∧ node.field = field ∧ ShownAll tree base children elements

def ShownAll (tree : Tree) (base : Nat) : List Shape → List Element → Prop
  | [], elements => elements = []
  | shape :: rest, elements =>
    ∃ element more, elements = element :: more ∧ shape.Shown tree base element ∧
      ShownAll tree base rest more

end

mutual

theorem Shown.keeps {tree tree' : Tree} {base base' : Nat} (hk : Tree.Keeps base tree tree')
    (hb : base' ≤ base) : ∀ {shape : Shape} {element : Element},
    shape.Shown tree base element → shape.Shown tree' base' element
  | .leaf token field, element, h => by
    obtain ⟨id, leaf, he, hleaf, hkind, hfield⟩ := h
    exact ⟨id, leaf, he, hk.leaves id leaf hleaf, hkind, hfield⟩
  | .node kind field children, element, h => by
    obtain ⟨id, node, elements, he, hid, hlists, hkind, hfield, hall⟩ := h
    exact ⟨id, node, elements, he, Nat.le_trans hb hid, hlists.keeps hk hid, hkind, hfield,
      ShownAll.keeps hk hb hall⟩

theorem ShownAll.keeps {tree tree' : Tree} {base base' : Nat} (hk : Tree.Keeps base tree tree')
    (hb : base' ≤ base) : ∀ {shapes : List Shape} {elements : List Element},
    ShownAll tree base shapes elements → ShownAll tree' base' shapes elements
  | [], elements, h => by
    rw [ShownAll] at h ⊢
    exact h
  | shape :: rest, elements, h => by
    rw [ShownAll] at h ⊢
    obtain ⟨element, more, he, hshape, hrest⟩ := h
    exact ⟨element, more, he, hshape.keeps hk hb, ShownAll.keeps hk hb hrest⟩

end

/-- What shows two lists of shapes shows both of them together. -/
theorem shownAll_append {tree : Tree} {base : Nat} {xs ys : List Shape}
    {elements elements' : List Element} (h : ShownAll tree base xs elements)
    (h' : ShownAll tree base ys elements') :
    ShownAll tree base (xs ++ ys) (elements ++ elements') := by
  induction xs generalizing elements with
  | nil =>
    rw [ShownAll] at h
    simpa [h] using h'
  | cons shape rest ih =>
    rw [ShownAll] at h
    obtain ⟨element, more, rfl, hshape, hrest⟩ := h
    rw [List.cons_append, ShownAll]
    exact ⟨element, more ++ elements', rfl, hshape, ih hrest⟩

/-- What shows shapes side by side can be parted anywhere. -/
theorem ShownAll.split {tree : Tree} {base : Nat} {xs ys : List Shape} {elements : List Element}
    (h : ShownAll tree base (xs ++ ys) elements) :
    ∃ front back, elements = front ++ back ∧ ShownAll tree base xs front ∧
      ShownAll tree base ys back := by
  induction xs generalizing elements with
  | nil => exact ⟨[], elements, rfl, by rw [ShownAll], h⟩
  | cons shape rest ih =>
    rw [List.cons_append, ShownAll] at h
    obtain ⟨element, more, rfl, hshape, hrest⟩ := h
    obtain ⟨front, back, rfl, hfront, hback⟩ := ih hrest
    refine ⟨element :: front, back, rfl, ?_, hback⟩
    rw [ShownAll]
    exact ⟨element, front, rfl, hshape, hfront⟩

theorem allOf_append {holds : Kind → List Shape → Prop} {xs ys : List Shape} :
    AllOf holds (xs ++ ys) ↔ AllOf holds xs ∧ AllOf holds ys := by
  simp only [allOf_iff, List.mem_append, or_imp, forall_and]

mutual

def kinds : Shape → List Kind
  | .leaf _ _ => []
  | .node kind _ children => kind :: kindsAll children

def kindsAll : List Shape → List Kind
  | [] => []
  | shape :: rest => shape.kinds ++ kindsAll rest

end

theorem kindsAll_append (xs ys : List Shape) :
    kindsAll (xs ++ ys) = kindsAll xs ++ kindsAll ys := by
  induction xs with
  | nil => rfl
  | cons shape rest ih => simp [kindsAll, ih]

mutual

theorem count_kinds (wanted : Kind) : ∀ shape : Shape, shape.kinds.count wanted = shape.count wanted
  | .leaf _ _ => by simp [kinds, count]
  | .node kind field children => by
    simp [kinds, count, List.count_cons, count_kindsAll wanted children, Nat.add_comm]

theorem count_kindsAll (wanted : Kind) : ∀ shapes : List Shape,
    (kindsAll shapes).count wanted = countAll wanted shapes
  | [] => by simp [kindsAll]
  | shape :: rest => by
    simp [kindsAll, countAll, count_kinds wanted shape, count_kindsAll wanted rest]

end

end Shape

end ScriptTree

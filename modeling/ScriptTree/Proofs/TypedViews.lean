import ScriptTree.Proofs.Grammar.Needs
import ScriptTree.Proofs.Independence
import ScriptTree.View.State
import ScriptTree.View.Statement

/-!
Typed views of trees without reports. Where a parse has nothing to report, every child that a view
lists is one that the view is for, and every accessor to a part that a construct cannot do without
gives that part.
-/

namespace ScriptTree

open Grammar

namespace Shape

/-- An element of a tree stands for a shape whose tokens are among the tokens of the tree, at their
place. -/
def Rests (tree : Tree) (all : List Token) (shape : Shape) (element : Element) : Prop :=
  ∃ base front back, all = front ++ shape.tokens ++ back ∧
    shape.Lies tree base (widthOf front) front.length element

variable {tree : Tree} {all : List Token}

/-- Shapes that lie on a stretch of tokens rest on them. -/
theorem LiesAll.rests {base : Nat} {shapes : List Shape} {elements : List Element}
    {front back : List Token}
    (h : LiesAll tree base shapes (widthOf front) front.length elements)
    (hall : all = front ++ tokensAll shapes ++ back) :
    List.Forall₂ (Rests tree all) shapes elements := by
  induction shapes generalizing elements front with
  | nil =>
    rw [LiesAll] at h
    rw [h]
    exact .nil
  | cons shape rest ih =>
    rw [LiesAll] at h
    obtain ⟨element, more, rfl, hshape, hrest⟩ := h
    have hcut : all = front ++ shape.tokens ++ (tokensAll rest ++ back) := by
      rw [hall, tokensAll]
      simp
    rw [← widthOf_append, ← List.length_append] at hrest
    refine .cons ⟨base, front, tokensAll rest ++ back, hcut, hshape⟩ (ih hrest ?_)
    rw [hcut, List.append_assoc _ (tokensAll rest)]

variable {kind : Kind} {field : Option Field} {children : List Shape} {id : NodeId}

theorem Rests.exists_node {element : Element}
    (h : Rests tree all (.node kind field children) element) : ∃ id, element = .node id := by
  obtain ⟨_, _, _, _, id, _, _, rfl, -⟩ := h
  exact ⟨id, rfl⟩

/-- A node has the kind and the slot of its shape, and its children stand for those of the
shape. -/
theorem Rests.node (h : Rests tree all (.node kind field children) (.node id)) :
    tree.kind id = kind ∧ (tree.node id).field = field ∧
      List.Forall₂ (Rests tree all) children (tree.elements id) := by
  obtain ⟨base, front, back, hall, id', node, elements, he, -, hlists, hkind, hfield, -, -,
    hbelow⟩ := h
  obtain rfl := Element.node.inj he
  rw [Shape.tokens] at hall
  rw [Tree.kind, Tree.node_eq hlists.entry, hlists.elements]
  exact ⟨hkind, hfield, hbelow.rests hall⟩

/-- A token of a tree has the slot of its shape, and reads as its text. -/
theorem Rests.leaf {stop : Cursor} (htiled : Tiled (Cursor.ofText tree.text) all stop)
    {token : Token} {element : Element} (h : Rests tree all (.leaf token field) element) :
    ∃ id, element = .token id ∧ (tree.leaf id).field = field ∧ tree.leafText id = token.text := by
  obtain ⟨base, front, back, hall, rfl, leaf, hleaf, -, hfield, hspan, -⟩ := h
  refine ⟨front.length, rfl, ?_, ?_⟩
  · rw [Tree.leaf_eq hleaf]
    exact hfield
  · -- the token fills the text from where the tokens in front of it end
    rw [hall, Shape.tokens, List.append_assoc] at htiled
    obtain ⟨before, hfront, hrest⟩ := htiled.split
    have hoffset : before.offset = widthOf front := by
      have hwidth := hfront.offset_eq
      simpa [Cursor.ofText] using hwidth
    obtain ⟨chars, hpasses⟩ := hfront.passes
    have hwithin : before.Within tree.text := (Cursor.within_ofText tree.text).passes hpasses
    cases hrest with
    | cons hfills _ =>
      have hread := hfills.read? hwithin
      have hplace : leaf.span = token.span := by
        obtain ⟨first, last, hleading, hp, hs, -⟩ := hfills
        have hfirst := hleading.offset_eq
        have hlast := hp.2
        rw [hspan, ← hoffset, ← hfirst, hs]
        simp only [Span.sized, Span.size, hlast]
        rw [Nat.add_sub_cancel_left]
      rw [Tree.leafText, Tree.read, Tree.leaf_eq hleaf, hplace, Span.read, hread]
      rfl

/-- A node that starts with a token has it as its first one. -/
theorem Rests.firstToken {token : Token} {slot : Option Field} {rest : List Shape}
    (h : Rests tree all (.node kind field (.leaf token slot :: rest)) (.node id)) :
    ∃ first, tree.firstToken? id = some first ∧
      Rests tree all (.leaf token slot) (.token first) := by
  obtain ⟨base, front, back, hall, id', node, elements, he, -, hlists, -, -, -, htokens, hbelow⟩ :=
    h
  obtain rfl := Element.node.inj he
  refine ⟨front.length, ?_, base, front, tokensAll rest ++ back, ?_, ?_⟩
  · rw [Tree.firstToken?, Tree.node_eq hlists.entry, htokens, tokensAll, Shape.tokens]
    simp
  · rw [hall]
    simp [Shape.tokens, tokensAll]
  · rw [LiesAll] at hbelow
    obtain ⟨element, more, -, hleaf, -⟩ := hbelow
    obtain rfl := hleaf.1
    exact hleaf

end Shape

theorem exists_left_of_forall₂ {α β : Type} {related : α → β → Prop} {xs : List α} {ys : List β}
    (h : List.Forall₂ related xs ys) {y : β} (hy : y ∈ ys) : ∃ x ∈ xs, related x y := by
  induction h with
  | nil => cases hy
  | cons hrelated _ ih =>
    rcases List.mem_cons.mp hy with rfl | hy
    · exact ⟨_, List.mem_cons_self, hrelated⟩
    · obtain ⟨x, hx, hxy⟩ := ih hy
      exact ⟨x, List.mem_cons_of_mem _ hx, hxy⟩

namespace Tree

def Offers (tree : Tree) : Need → NodeId → Prop
  | .every spot kinds, id => ∀ child ∈ tree.childNodes id,
    spot.takes (tree.node child).field = true → kinds.contains (tree.kind child) = true
  | .some spot kinds, id => ∃ child ∈ tree.childNodes id,
    spot.takes (tree.node child).field = true ∧ kinds.contains (tree.kind child) = true
  | .token slot, id => ∃ token ∈ tree.childTokens id, (tree.leaf token).field = some slot
  | .word words, id => ∃ token, tree.firstToken? id = some token ∧
    Text.lower (tree.leafText token) ∈ words
  | .count slot least most, id => least ≤ (tree.nodesIn id slot).length ∧
    (tree.nodesIn id slot).length ≤ most
  | .inner slot need, id => ∀ child ∈ tree.nodesIn id slot, tree.Offers need child

variable {tree : Tree} {all : List Token}

theorem mem_childNodes {id child : NodeId} :
    child ∈ tree.childNodes id ↔ .node child ∈ tree.elements id := by
  rw [childNodes, List.mem_filterMap]
  constructor
  · rintro ⟨element, hmem, hnode⟩
    cases element with
    | node other => exact Option.some.inj hnode ▸ hmem
    | token other => cases hnode
  · exact fun hmem => ⟨_, hmem, rfl⟩

theorem mem_childTokens {id : NodeId} {token : TokenId} :
    token ∈ tree.childTokens id ↔ .token token ∈ tree.elements id := by
  rw [childTokens, List.mem_filterMap]
  constructor
  · rintro ⟨element, hmem, htoken⟩
    cases element with
    | node other => cases htoken
    | token other => exact Option.some.inj htoken ▸ hmem
  · exact fun hmem => ⟨_, hmem, rfl⟩

/-- A child node stands for a child of the shape. -/
theorem exists_shape_of_mem {children : List Shape} {id child : NodeId}
    (h : List.Forall₂ (Shape.Rests tree all) children (tree.elements id))
    (hmem : child ∈ tree.childNodes id) :
    ∃ below, .node (tree.kind child) (tree.node child).field below ∈ children ∧
      Shape.Rests tree all (.node (tree.kind child) (tree.node child).field below)
        (.node child) := by
  obtain ⟨shape, hshape, hrests⟩ := exists_left_of_forall₂ h (mem_childNodes.mp hmem)
  cases shape with
  | leaf token slot =>
    obtain ⟨_, _, _, _, he, -⟩ := hrests
    cases he
  | node kind field below =>
    obtain ⟨hkind, hfield, -⟩ := hrests.node
    rw [hkind, hfield]
    exact ⟨below, hshape, hrests⟩

/-- A child node of the shape has a child that stands for it. -/
theorem exists_child_of_mem {children : List Shape} {id : NodeId} {kind : Kind}
    {field : Option Field} {below : List Shape}
    (h : List.Forall₂ (Shape.Rests tree all) children (tree.elements id))
    (hmem : .node kind field below ∈ children) :
    ∃ child ∈ tree.childNodes id, tree.kind child = kind ∧ (tree.node child).field = field := by
  obtain ⟨element, helement, hrests⟩ := exists_left_of_forall₂ h.flip hmem
  obtain ⟨child, rfl⟩ := Shape.Rests.exists_node hrests
  obtain ⟨hkind, hfield, -⟩ := Shape.Rests.node hrests
  exact ⟨child, mem_childNodes.mpr helement, hkind, hfield⟩

/-- The children in a slot are as many as the children of the shape in that slot. -/
theorem length_nodesIn {children : List Shape} {id : NodeId} (slot : Field)
    (h : List.Forall₂ (Shape.Rests tree all) children (tree.elements id)) :
    (tree.nodesIn id slot).length = children.countP (Shape.fills slot) := by
  rw [nodesIn, childNodes]
  generalize tree.elements id = elements at h
  induction h with
  | nil => rfl
  | @cons shape element _ _ hrests _ ih =>
    cases shape with
    | leaf token field =>
      obtain ⟨_, _, _, _, rfl, -⟩ := hrests
      rw [List.filterMap_cons]
      simpa [Element.node?, Shape.fills] using ih
    | node kind field below =>
      obtain ⟨child, rfl⟩ := hrests.exists_node
      obtain ⟨-, hfield, -⟩ := hrests.node
      have hcons (rest : List Element) : (Element.node child :: rest).filterMap Element.node? =
          child :: rest.filterMap Element.node? := rfl
      rw [hcons, List.countP_cons, ← ih, List.filter_cons, hfield, Shape.fills]
      split <;> simp

/-- A node that stands for a shape has what the shape has. -/
theorem offers_of_met {stop : Cursor} (htiled : Tiled (Cursor.ofText tree.text) all stop)
    {need : Need} {kind : Kind} {field : Option Field} {children : List Shape} {id : NodeId}
    (h : Shape.Rests tree all (.node kind field children) (.node id))
    (hmet : need.Met children) : tree.Offers need id := by
  induction need generalizing kind field children id with
  | every spot kinds =>
    intro child hchild hspot
    obtain ⟨below, hbelow, -⟩ := exists_shape_of_mem h.node.2.2 hchild
    exact hmet _ _ below hbelow hspot
  | some spot kinds =>
    obtain ⟨inner, slot, below, hbelow, hspot, hkind⟩ := hmet
    obtain ⟨child, hchild, rfl, rfl⟩ := exists_child_of_mem h.node.2.2 hbelow
    exact ⟨child, hchild, hspot, hkind⟩
  | token slot =>
    obtain ⟨token, htoken⟩ := hmet
    obtain ⟨element, helement, hrests⟩ := exists_left_of_forall₂ h.node.2.2.flip htoken
    obtain ⟨leaf, rfl, hfield, -⟩ := Shape.Rests.leaf htiled hrests
    exact ⟨leaf, mem_childTokens.mpr helement, hfield⟩
  | word words =>
    obtain ⟨token, slot, rest, rfl, hword⟩ := hmet
    obtain ⟨first, hfirst, hrests⟩ := h.firstToken
    obtain ⟨leaf, heq, -, htext⟩ := hrests.leaf htiled
    obtain rfl := Element.token.inj heq
    exact ⟨first, hfirst, htext ▸ hword⟩
  | count slot least most =>
    rw [Offers, length_nodesIn slot h.node.2.2]
    exact hmet
  | inner slot need ih =>
    intro child hchild
    obtain ⟨hmem, hslot⟩ := List.mem_filter.mp hchild
    rw [beq_iff_eq] at hslot
    obtain ⟨below, hbelow, hrests⟩ := exists_shape_of_mem h.node.2.2 hmem
    rw [hslot] at hbelow
    exact ih hrests (hmet _ below hbelow)

def IsComplete (tree : Tree) : Prop :=
  ∀ id < tree.nodeCount, ∃ list ∈ needs (tree.kind id), ∀ need ∈ list, tree.Offers need id

end Tree

namespace Tree

variable {tree : Tree}

theorem lt_nodeCount {id : NodeId} (h : tree.kind id ≠ default) : id < tree.nodeCount := by
  by_contra hge
  refine h ?_
  rw [kind, node, Array.getD_eq_getD_getElem?, Array.getElem?_eq_none (Nat.not_lt.mp hge)]
  rfl

/-- What a view of a complete tree has, where its kind leaves no choice. -/
theorem IsComplete.offers (h : tree.IsComplete) {kind : Kind} {list : List Need}
    (hneeds : needs kind = [list]) {id : NodeId} (hkind : tree.kind id = kind)
    (hne : kind ≠ default) : ∀ need ∈ list, tree.Offers need id := by
  obtain ⟨other, hother, hoffers⟩ := h id (lt_nodeCount (hkind ▸ hne))
  rw [hkind, hneeds, List.mem_singleton] at hother
  rwa [hother] at hoffers

variable {id : NodeId} {slot : Field} {kinds : KindSet}

/-- A node with a part in a slot: the first node there is of the kinds. -/
theorem exists_nodeIn? (h : ∀ need ∈ part slot kinds, tree.Offers need id) :
    ∃ child, tree.nodeIn? id slot = some child ∧ child ∈ tree.nodesIn id slot ∧
      kinds.contains (tree.kind child) = true := by
  obtain ⟨some, every⟩ := List.forall_mem_cons.mp h
  obtain ⟨child, hchild, hspot, -⟩ := some
  have hevery := List.forall_mem_singleton.mp every
  cases hfound : tree.nodeIn? id slot with
  | none =>
    have hnone := List.find?_eq_none.mp hfound child hchild
    exact absurd hspot hnone
  | some first =>
    have hmem := List.mem_of_find?_eq_some hfound
    have hslot := List.find?_some hfound
    exact ⟨first, rfl, List.mem_filter.mpr ⟨hmem, hslot⟩, hevery first hmem hslot⟩

end Tree

namespace View

variable {tree : Tree} {p q : Kind → Bool} {slot : Field} {kinds : KindSet}

theorem exists_cast? {id : NodeId} (h : q (tree.kind id) = true) :
    ∃ view : View tree q, cast? tree id = some view ∧ view.node = id :=
  ⟨⟨id, h⟩, dif_pos h, rfl⟩

theorem exists_inSlot? {id : NodeId} (h : ∀ need ∈ part slot kinds, tree.Offers need id)
    (hq : ∀ kind, kinds.contains kind = true → q kind = true) :
    ∃ view : View tree q, inSlot? tree id slot = some view ∧
      view.node ∈ tree.nodesIn id slot ∧ kinds.contains (tree.kind view.node) = true := by
  obtain ⟨child, hchild, hmem, hkind⟩ := Tree.exists_nodeIn? h
  obtain ⟨view, hview, rfl⟩ := exists_cast? (hq _ hkind)
  exact ⟨view, by rw [inSlot?, hchild]; exact hview, hmem, hkind⟩

/-- A part that a node has in a slot is what the accessor to the slot gives. -/
theorem isSome_child? {view : View tree p}
    (h : ∀ need ∈ part slot kinds, tree.Offers need view.node)
    (hq : ∀ kind, kinds.contains kind = true → q kind = true) :
    (view.child? slot : Option (View tree q)).isSome = true := by
  obtain ⟨child, hchild, -⟩ := exists_inSlot? h hq
  rw [child?, hchild]
  rfl

theorem inSlot_ne_nil {id : NodeId} (h : ∀ need ∈ part slot kinds, tree.Offers need id)
    (hq : ∀ kind, kinds.contains kind = true → q kind = true) :
    (inSlot tree id slot : List (View tree q)) ≠ [] := by
  obtain ⟨child, -, hmem, hkind⟩ := Tree.exists_nodeIn? h
  obtain ⟨view, hview, -⟩ := exists_cast? (hq _ hkind)
  exact List.ne_nil_of_mem (List.mem_filterMap.mpr ⟨child, hmem, hview⟩)

theorem isSome_token? {view : View tree p} (h : tree.Offers (.token slot) view.node) :
    (view.token? slot).isSome = true := by
  obtain ⟨token, htoken, hslot⟩ := h
  rw [token?, Tree.tokenIn?, List.find?_isSome]
  exact ⟨token, htoken, beq_iff_eq.mpr hslot⟩

theorem kind_eq {kind : Kind} (view : View tree (· == kind)) : tree.kind view.node = kind :=
  beq_iff_eq.mp view.isFit

end View

theorem KindSet.eq_of_contains_single {kind : Kind} (other : Kind)
    (h : (KindSet.single kind).contains other = true) : (other == kind) = true := by
  rw [KindSet.contains_single, beq_iff_eq] at h
  rw [h, beq_self_eq_true]

theorem KindSet.of_contains_ofClass {isMember : Kind → Bool} (kind : Kind)
    (h : (KindSet.ofClass isMember).contains kind = true) : isMember kind = true := by
  rwa [KindSet.contains_ofClass] at h

open View KindSet in
/-- Every accessor to a part that a construct cannot do without gives that part, and the children
of lists are ones that the views of the lists are for. -/
structure Tree.IsAccessible (tree : Tree) : Prop where
  item : ∀ (file : SourceFile tree), ∀ child ∈ tree.childNodes file.node,
    (cast? tree child : Option (Item tree)).isSome = true
  statement : ∀ (block : CompoundStatement tree), ∀ child ∈ tree.childNodes block.node,
    (cast? tree child : Option (Statement tree)).isSome = true
  stateItem : ∀ (block : StatesBlock tree), ∀ child ∈ tree.childNodes block.node,
    tree.kind child ≠ .statesScope → (cast? tree child : Option (StateItem tree)).isSome = true
  classDefinition : ∀ definition : ClassDefinition tree,
    definition.name.isSome = true ∧ definition.body.isSome = true
  structDefinition : ∀ definition : StructDefinition tree,
    definition.name.isSome = true ∧ definition.body.isSome = true
  enumDefinition : ∀ definition : EnumDefinition tree, definition.name.isSome = true
  enumerator : ∀ enumerator : Enumerator tree, enumerator.name.isSome = true
  constDefinition : ∀ definition : ConstDefinition tree,
    definition.name.isSome = true ∧ definition.value.isSome = true
  functionDefinition : ∀ function : FunctionDefinition tree,
    function.name.isSome = true ∧ function.parameters.isSome = true ∧ function.returnTypes ≠ []
  parameter : ∀ parameter : Parameter tree,
    parameter.name.isSome = true ∧ parameter.type.isSome = true
  fieldDeclaration : ∀ declaration : FieldDeclaration tree,
    declaration.type.isSome = true ∧ declaration.declarators ≠ []
  localDeclaration : ∀ declaration : LocalDeclaration tree,
    declaration.type.isSome = true ∧ declaration.declarators ≠ []
  declarator : ∀ declarator : Declarator tree, declarator.name.isSome = true
  ifStatement : ∀ statement : IfStatement tree,
    statement.condition.isSome = true ∧ statement.consequence.isSome = true ∧
      (statement.hasPart .elseClause = true → statement.alternative.isSome = true)
  binary : ∀ expression : BinaryExpr tree, expression.left.isSome = true ∧
    expression.operator.isSome = true ∧ expression.right.isSome = true
  assignment : ∀ expression : AssignmentExpr tree, expression.left.isSome = true ∧
    expression.operator.isSome = true ∧ expression.right.isSome = true
  conditional : ∀ expression : ConditionalExpr tree, expression.condition.isSome = true ∧
    expression.consequence.isSome = true ∧ expression.alternative.isSome = true
  prefixed : ∀ expression : PrefixExpr tree,
    expression.operator.isSome = true ∧ expression.operand.isSome = true
  postfixed : ∀ expression : PostfixExpr tree,
    expression.operator.isSome = true ∧ expression.operand.isSome = true
  cast : ∀ cast : CastExpr tree, cast.type.isSome = true ∧ cast.operand.isSome = true
  call : ∀ call : CallExpr tree, call.function.isSome = true ∧ call.arguments.isSome = true
  memberAccess : ∀ expression : MemberExpr tree,
    expression.object.isSome = true ∧ expression.member.isSome = true
  indexAccess : ∀ expression : IndexExpr tree,
    expression.object.isSome = true ∧ expression.index.isSome = true
  parenthesized : ∀ expression : ParenExpr tree, expression.inner.isSome = true
  vector : ∀ vector : VectorLiteral tree,
    2 ≤ vector.components.length ∧ vector.components.length ≤ 4
  stateLine : ∀ line : StateLine tree, line.sprite.isSome = true ∧ line.frames.isSome = true ∧
    line.duration.isSome = true
  stateFlow : ∀ flow : StateFlow tree, flow.kind.isSome = true ∧
    (flow.target.isSome = true ↔ flow.kind = some .goto)
  gotoTarget : ∀ target : GotoTarget tree, target.label.isSome = true
  stateLabel : ∀ label : StateLabel tree, label.name.isSome = true

namespace Tree.IsComplete

open View

variable {tree : Tree}

/-- What a view of one kind has in a complete tree. -/
theorem viewOffers (h : tree.IsComplete) {kind : Kind} (view : View tree (· == kind))
    {list : List Need} (hneeds : needs kind = [list]) (hne : kind ≠ default) :
    ∀ need ∈ list, tree.Offers need view.node :=
  h.offers hneeds view.kind_eq hne

theorem isSome_cast?_child (h : tree.IsComplete) {kind : Kind} (view : View tree (· == kind))
    {isMember : Kind → Bool} (hneeds : needs kind = [[.every .anywhere (.ofClass isMember)]])
    (hne : kind ≠ default) {child : NodeId} (hchild : child ∈ tree.childNodes view.node) :
    (cast? tree child : Option (View tree isMember)).isSome = true := by
  have hevery := List.forall_mem_singleton.mp (h.viewOffers view hneeds hne)
  have hmember := hevery child hchild rfl
  obtain ⟨other, hother, -⟩ := exists_cast? (KindSet.of_contains_ofClass _ hmember)
  rw [hother]
  rfl

/-- A state block has nothing but labels, lines and directives behind its scope. -/
theorem isSome_stateItem (h : tree.IsComplete) (block : StatesBlock tree) {child : NodeId}
    (hchild : child ∈ tree.childNodes block.node) (hscope : tree.kind child ≠ .statesScope) :
    (cast? tree child : Option (StateItem tree)).isSome = true := by
  obtain ⟨houtside, hinside⟩ :=
    List.forall_mem_cons.mp (h.viewOffers block rfl (by decide))
  have hscopes := List.forall_mem_singleton.mp hinside child hchild
  have hfield : Spot.takes (.outside .scope) (tree.node child).field = true := by
    rw [Spot.takes, bne_iff_ne]
    intro hslot
    have hkind := KindSet.eq_of_contains_single _ (hscopes (beq_iff_eq.mpr hslot))
    exact hscope (beq_iff_eq.mp hkind)
  obtain ⟨view, hview, -⟩ :=
    exists_cast? (KindSet.of_contains_ofClass _ (houtside child hchild hfield))
  rw [hview]
  rfl

theorem returnTypes_ne_nil (h : tree.IsComplete) {function : FunctionDefinition tree}
    (hpart : ∀ need ∈ part .returnTypes (.single .returnTypes),
      tree.Offers need function.node) : function.returnTypes ≠ [] := by
  obtain ⟨types, htypes, -, hkind⟩ := Tree.exists_nodeIn? hpart
  have hoffers := h.offers rfl (beq_iff_eq.mp (KindSet.eq_of_contains_single _ hkind)) (by decide)
  rw [FunctionDefinition.returnTypes, htypes]
  exact inSlot_ne_nil hoffers KindSet.of_contains_ofClass

/-- A declarator has a name in its slot, or is written as a call of its name. -/
theorem isSome_declaratorName (h : tree.IsComplete) (declarator : Declarator tree) :
    declarator.name.isSome = true := by
  have hkind : tree.kind declarator.node = .variableDeclarator ∨
      tree.kind declarator.node = .arrayDeclarator := by
    have hfit := declarator.isFit
    unfold Kind.isDeclarator at hfit
    split at hfit <;> simp_all
  have hneeds : needs (tree.kind declarator.node) = [namePart,
      part .value (.single .callExpr) ++ (part .function (.single .nameRef)).map
        (.inner .value)] := by
    rcases hkind with hkind | hkind <;> rw [hkind] <;> rfl
  have hlt : declarator.node < tree.nodeCount := by
    refine Tree.lt_nodeCount ?_
    rcases hkind with hkind | hkind <;> rw [hkind] <;> decide
  obtain ⟨list, hlist, hoffers⟩ := h _ hlt
  rw [hneeds] at hlist
  rw [Declarator.name]
  rcases List.mem_cons.mp hlist with rfl | hlist
  · obtain ⟨child, hchild, -⟩ := Tree.exists_nodeIn? hoffers
    rw [View.nameText?, hchild]
    rfl
  · obtain rfl := List.mem_singleton.mp hlist
    obtain ⟨hvalue, hcallee⟩ := List.forall_mem_append.mp hoffers
    cases hname : declarator.nameText? with
    | some name => rfl
    | none =>
      -- the value is a call, and what it calls is a name
      obtain ⟨value, hget, hmem, hcall⟩ :=
        exists_inSlot? hvalue fun kind hk => by
          rw [beq_iff_eq.mp (KindSet.eq_of_contains_single kind hk)]
          exact (rfl : Kind.isExpression .callExpr = true)
      have hcall' : (tree.kind value.node == .callExpr) = true :=
        KindSet.eq_of_contains_single _ hcall
      have hinner : ∀ need ∈ part .function (.single .nameRef), tree.Offers need value.node := by
        intro need hneed
        exact hcallee _ (List.mem_map_of_mem hneed) value.node hmem
      obtain ⟨callee, hcalleeGet, -, hnameRef⟩ :=
        exists_inSlot? hinner fun kind hk => by
          rw [beq_iff_eq.mp (KindSet.eq_of_contains_single kind hk)]
          exact (rfl : Kind.isExpression .nameRef = true)
      have hnameRef' : (tree.kind callee.node == .nameRef) = true :=
        KindSet.eq_of_contains_single _ hnameRef
      have hvalueGet : declarator.value = some value := hget
      have hcast : (cast? tree value.node : Option (CallExpr tree)) = some ⟨value.node, hcall'⟩ :=
        dif_pos hcall'
      have hfunction : CallExpr.function ⟨value.node, hcall'⟩ = some callee := hcalleeGet
      have hcast' : (cast? tree callee.node : Option (NameRef tree)) =
          some ⟨callee.node, hnameRef'⟩ := dif_pos hnameRef'
      simp [hvalueGet, hcast, hfunction, hcast']

/-- An `else` stands in its slot, and a statement stands behind it. -/
theorem isSome_alternative (h : tree.IsComplete) {statement : IfStatement tree}
    (hinside : tree.Offers (.every (.inside .alternative) (.single .elseClause)) statement.node)
    (houtside : tree.Offers (.every (.outside .alternative) (.ofClass (· != .elseClause)))
      statement.node) (helse : statement.hasPart .elseClause = true) :
    statement.alternative.isSome = true := by
  obtain ⟨clause, hclause, hkind⟩ := List.any_eq_true.mp helse
  have hfield : (tree.node clause).field = some .alternative := by
    by_contra hne
    have hother := houtside clause hclause (bne_iff_ne.mpr hne)
    rw [KindSet.contains_ofClass, bne, hkind] at hother
    cases hother
  have hpart : ∀ need ∈ part .alternative (.single .elseClause),
      tree.Offers need statement.node := by
    refine List.forall_mem_cons.mpr ⟨⟨clause, hclause, beq_iff_eq.mpr hfield, ?_⟩, ?_⟩
    · rw [beq_iff_eq.mp hkind, KindSet.contains_single, beq_self_eq_true]
    · exact List.forall_mem_singleton.mpr hinside
  obtain ⟨first, hfirst, -, hfirstKind⟩ := Tree.exists_nodeIn? hpart
  have hoffers :=
    h.offers rfl (beq_iff_eq.mp (KindSet.eq_of_contains_single _ hfirstKind)) (by decide)
  obtain ⟨body, hbody, -, hstatement⟩ := List.forall_mem_singleton.mp hoffers
  obtain ⟨view, hview, -⟩ := exists_cast? (KindSet.of_contains_ofClass _ hstatement)
  have hmem : view ∈ (below tree first : List (Statement tree)) :=
    List.mem_filterMap.mpr ⟨body, hbody, hview⟩
  have hget : statement.alternative = (below tree first : List (Statement tree)).head? := by
    rw [IfStatement.alternative, hfirst]
    rfl
  rw [hget, List.isSome_head?]
  exact List.ne_nil_of_mem hmem

/-- A vector has two to four components. -/
theorem length_components (h : tree.IsComplete) (vector : VectorLiteral tree) :
    2 ≤ vector.components.length ∧ vector.components.length ≤ 4 := by
  obtain ⟨hevery, hcount⟩ := List.forall_mem_cons.mp (h.viewOffers vector rfl (by decide))
  have hbounds := List.forall_mem_singleton.mp hcount
  have hall : ∀ child ∈ tree.nodesIn vector.node .component,
      (cast? tree child : Option (Expression tree)).isSome = true := by
    intro child hchild
    obtain ⟨hmem, hslot⟩ := List.mem_filter.mp hchild
    obtain ⟨view, hview, -⟩ :=
      exists_cast? (KindSet.of_contains_ofClass _ (hevery child hmem hslot))
    rw [hview]
    rfl
  have hlength : vector.components.length =
      (tree.nodesIn vector.node .component).length :=
    List.filterMap_length_eq_length.mpr hall
  rw [hlength]
  exact hbounds

/-- The word of a directive says which one it is, and only a jump has a target. -/
theorem kind_target (h : tree.IsComplete) (flow : StateFlow tree) :
    flow.kind.isSome = true ∧ (flow.target.isSome = true ↔ flow.kind = some .goto) := by
  have hkind : tree.kind flow.node = .stateFlow := flow.kind_eq
  have hfound {token : TokenId} (htoken : tree.firstToken? flow.node = some token) :
      flow.kind = FlowKind.ofWord? (Text.lower (tree.leafText token)) := by
    rw [StateFlow.kind, htoken, Option.bind_eq_bind, Option.bind_some]
  obtain ⟨list, hlist, hoffers⟩ := h flow.node (Tree.lt_nodeCount (by rw [hkind]; decide))
  rw [hkind] at hlist
  rcases List.mem_cons.mp hlist with rfl | hlist
  · obtain ⟨⟨token, htoken, hword⟩, hpart⟩ := List.forall_mem_cons.mp hoffers
    have hgoto : flow.kind = some .goto := by
      rw [hfound htoken, List.mem_singleton.mp hword]
      rfl
    have htarget : flow.target.isSome = true :=
      isSome_child? hpart KindSet.eq_of_contains_single
    rw [hgoto]
    exact ⟨rfl, fun _ => rfl, fun _ => htarget⟩
  · obtain rfl := List.mem_singleton.mp hlist
    obtain ⟨⟨token, htoken, hword⟩, hnone⟩ := List.forall_mem_cons.mp hoffers
    have hempty := List.forall_mem_singleton.mp hnone
    have htarget : flow.target = none := by
      have hnode : tree.nodeIn? flow.node .target = none := by
        rw [Tree.nodeIn?, List.find?_eq_none]
        intro child hchild hslot
        have hcontains := hempty child hchild hslot
        rw [KindSet.contains_empty] at hcontains
        cases hcontains
      rw [StateFlow.target, child?, inSlot?, hnode]
      rfl
    rw [hfound htoken, htarget]
    simp only [List.mem_cons, List.not_mem_nil, or_false] at hword
    rcases hword with hword | hword | hword | hword <;> rw [hword] <;>
      exact ⟨rfl, nofun, nofun⟩

/-- What is complete has a child for every accessor, by the needs of its kind. -/
theorem isAccessible (h : tree.IsComplete) : tree.IsAccessible where
  item file child hchild := h.isSome_cast?_child file rfl (by decide) hchild
  statement block child hchild := h.isSome_cast?_child block rfl (by decide) hchild
  stateItem block child hchild hscope := h.isSome_stateItem block hchild hscope
  classDefinition definition := by
    obtain ⟨hname, hbody⟩ := List.forall_mem_append.mp (h.viewOffers definition rfl (by decide))
    exact ⟨isSome_child? hname KindSet.eq_of_contains_single,
      isSome_child? hbody KindSet.eq_of_contains_single⟩
  structDefinition definition := by
    obtain ⟨hname, hbody⟩ := List.forall_mem_append.mp (h.viewOffers definition rfl (by decide))
    exact ⟨isSome_child? hname KindSet.eq_of_contains_single,
      isSome_child? hbody KindSet.eq_of_contains_single⟩
  enumDefinition definition :=
    isSome_child? (h.viewOffers definition rfl (by decide)) KindSet.eq_of_contains_single
  enumerator enumerator :=
    isSome_child? (h.viewOffers enumerator rfl (by decide)) KindSet.eq_of_contains_single
  constDefinition definition := by
    obtain ⟨hname, hvalue⟩ := List.forall_mem_append.mp (h.viewOffers definition rfl (by decide))
    exact ⟨isSome_child? hname KindSet.eq_of_contains_single,
      isSome_child? hvalue KindSet.of_contains_ofClass⟩
  functionDefinition function := by
    obtain ⟨hfront, htypes⟩ := List.forall_mem_append.mp (h.viewOffers function rfl (by decide))
    obtain ⟨hname, hparameters⟩ := List.forall_mem_append.mp hfront
    exact ⟨isSome_child? hname KindSet.eq_of_contains_single,
      isSome_child? hparameters KindSet.eq_of_contains_single, h.returnTypes_ne_nil htypes⟩
  parameter parameter := by
    obtain ⟨hname, htype⟩ := List.forall_mem_append.mp (h.viewOffers parameter rfl (by decide))
    exact ⟨isSome_child? hname KindSet.eq_of_contains_single,
      isSome_child? htype KindSet.of_contains_ofClass⟩
  fieldDeclaration declaration := by
    obtain ⟨htype, hdeclarators⟩ :=
      List.forall_mem_append.mp (h.viewOffers declaration rfl (by decide))
    exact ⟨isSome_child? htype KindSet.of_contains_ofClass,
      inSlot_ne_nil hdeclarators KindSet.of_contains_ofClass⟩
  localDeclaration declaration := by
    obtain ⟨htype, hdeclarators⟩ :=
      List.forall_mem_append.mp (h.viewOffers declaration rfl (by decide))
    exact ⟨isSome_child? htype KindSet.of_contains_ofClass,
      inSlot_ne_nil hdeclarators KindSet.of_contains_ofClass⟩
  declarator declarator := h.isSome_declaratorName declarator
  ifStatement statement := by
    obtain ⟨hfront, hback⟩ := List.forall_mem_append.mp (h.viewOffers statement rfl (by decide))
    obtain ⟨hcondition, hconsequence⟩ := List.forall_mem_append.mp hfront
    obtain ⟨hinside, houtside⟩ := List.forall_mem_cons.mp hback
    exact ⟨isSome_child? hcondition KindSet.of_contains_ofClass,
      isSome_child? hconsequence KindSet.of_contains_ofClass,
      h.isSome_alternative hinside (houtside _ (List.mem_singleton_self _))⟩
  binary expression := by
    obtain ⟨hoperator, hoperands⟩ :=
      List.forall_mem_cons.mp (h.viewOffers expression rfl (by decide))
    obtain ⟨hleft, hright⟩ := List.forall_mem_append.mp hoperands
    exact ⟨isSome_child? hleft KindSet.of_contains_ofClass, isSome_token? hoperator,
      isSome_child? hright KindSet.of_contains_ofClass⟩
  assignment expression := by
    obtain ⟨hoperator, hoperands⟩ :=
      List.forall_mem_cons.mp (h.viewOffers expression rfl (by decide))
    obtain ⟨hleft, hright⟩ := List.forall_mem_append.mp hoperands
    exact ⟨isSome_child? hleft KindSet.of_contains_ofClass, isSome_token? hoperator,
      isSome_child? hright KindSet.of_contains_ofClass⟩
  conditional expression := by
    obtain ⟨hfront, halternative⟩ :=
      List.forall_mem_append.mp (h.viewOffers expression rfl (by decide))
    obtain ⟨hcondition, hconsequence⟩ := List.forall_mem_append.mp hfront
    exact ⟨isSome_child? hcondition KindSet.of_contains_ofClass,
      isSome_child? hconsequence KindSet.of_contains_ofClass,
      isSome_child? halternative KindSet.of_contains_ofClass⟩
  prefixed expression := by
    obtain ⟨hoperator, hoperand⟩ :=
      List.forall_mem_cons.mp (h.viewOffers expression rfl (by decide))
    exact ⟨isSome_token? hoperator, isSome_child? hoperand KindSet.of_contains_ofClass⟩
  postfixed expression := by
    obtain ⟨hoperator, hoperand⟩ :=
      List.forall_mem_cons.mp (h.viewOffers expression rfl (by decide))
    exact ⟨isSome_token? hoperator, isSome_child? hoperand KindSet.of_contains_ofClass⟩
  cast cast := by
    obtain ⟨htype, hoperand⟩ := List.forall_mem_append.mp (h.viewOffers cast rfl (by decide))
    exact ⟨isSome_child? htype KindSet.of_contains_ofClass,
      isSome_child? hoperand KindSet.of_contains_ofClass⟩
  call call := by
    obtain ⟨hfunction, harguments⟩ := List.forall_mem_append.mp (h.viewOffers call rfl (by decide))
    exact ⟨isSome_child? hfunction KindSet.of_contains_ofClass,
      isSome_child? harguments KindSet.eq_of_contains_single⟩
  memberAccess expression := by
    obtain ⟨hobject, hmember⟩ :=
      List.forall_mem_append.mp (h.viewOffers expression rfl (by decide))
    exact ⟨isSome_child? hobject KindSet.of_contains_ofClass,
      isSome_child? hmember KindSet.eq_of_contains_single⟩
  indexAccess expression := by
    obtain ⟨hobject, hindex⟩ :=
      List.forall_mem_append.mp (h.viewOffers expression rfl (by decide))
    exact ⟨isSome_child? hobject KindSet.of_contains_ofClass,
      isSome_child? hindex KindSet.of_contains_ofClass⟩
  parenthesized expression :=
    isSome_child? (h.viewOffers expression rfl (by decide)) KindSet.of_contains_ofClass
  vector vector := h.length_components vector
  stateLine line := by
    obtain ⟨hsprite, hrest⟩ := List.forall_mem_cons.mp (h.viewOffers line rfl (by decide))
    obtain ⟨hframes, hduration⟩ := List.forall_mem_cons.mp hrest
    exact ⟨isSome_token? hsprite, isSome_token? hframes,
      isSome_child? hduration KindSet.eq_of_contains_single⟩
  stateFlow flow := h.kind_target flow
  gotoTarget target := by
    obtain ⟨child, hchild, -⟩ := Tree.exists_nodeIn? (h.viewOffers target rfl (by decide))
    rw [GotoTarget.label, hchild]
    rfl
  stateLabel label := by
    obtain ⟨child, hchild, -⟩ := Tree.exists_nodeIn? (h.viewOffers label rfl (by decide))
    rw [StateLabel.name, nameText?, hchild]
    rfl

end Tree.IsComplete

/-- The tree of a parse without reports is complete. -/
theorem isComplete_of_parseWith {text : String} {limit : Nat} {parse : Parse}
    (h : parseWith text limit = .ok parse) (hsilent : parse.diagnostics = []) :
    parse.tree.IsComplete := by
  obtain ⟨tree, hparse, htext, -⟩ := parseWith_eq (size_lt_of_parseWith h) limit
  obtain rfl := Except.ok.inj (hparse.symm.trans h)
  have hreports : (fileReading text limit).reports = [] := by
    have hlength := length_reports text limit
    have hnone : (readFile text limit).reports.length = 0 := List.length_eq_zero_iff.mpr hsilent
    exact List.eq_nil_of_length_eq_zero (by omega)
  obtain ⟨stop, hstop, -⟩ := tiled_fileShape text limit
  have htiled : Tiled (Cursor.ofText tree.text) (fileShape text limit).tokens stop := by
    rw [htext]
    exact hstop
  intro id hid
  obtain ⟨kind, field, children, front, back, ⟨list, hlist, hmet⟩, htokens, hlies⟩ :=
    Tree.covers_of_assemble (assemble_of_parseWith h) (complete_fileShape hreports) hid
  have hrests : Shape.Rests tree (fileShape text limit).tokens (.node kind field children)
      (.node id) := ⟨0, front, back, htokens, hlies⟩
  obtain ⟨rfl, -, -⟩ := hrests.node
  exact ⟨list, hlist, fun need hneed => Tree.offers_of_met htiled hrests (hmet need hneed)⟩

/-- Where there is nothing to report, typed views give all that constructs cannot do without. -/
theorem parse_accessible {text : String} {limit : Nat} {parse : Parse}
    (h : parseWith text limit = .ok parse) (hsilent : parse.diagnostics = []) :
    parse.tree.IsAccessible :=
  (isComplete_of_parseWith h hsilent).isAccessible

/-- A class with a function and a block of states. -/
theorem parse_class_accessible : ∃ parse,
    parseWith "class A{int f(int x){if(x)g();else y=(1,2);}states{goto B;}}" 20 = .ok parse ∧
      parse.diagnostics = [] ∧ parse.tree.IsAccessible := by
  obtain ⟨tree, hparse, -⟩ := parseWith_eq (show
    "class A{int f(int x){if(x)g();else y=(1,2);}states{goto B;}}".utf8ByteSize < UInt32.size by
      decide) 20
  have hsilent : (readFile "class A{int f(int x){if(x)g();else y=(1,2);}states{goto B;}}"
      20).reports = [] := by decide +kernel
  exact ⟨_, hparse, hsilent, parse_accessible hparse hsilent⟩

end ScriptTree

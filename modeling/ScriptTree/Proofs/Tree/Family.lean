import ScriptTree.Proofs.Tree.Parts

/-!
Parents, children and ancestors in a tree. The parent that the tables name for an element is the
node that lists it, parents come before their children, and the ancestors of a token are the nodes
whose interval of tokens it lies in.
-/

namespace ScriptTree

namespace Tree.Houses

variable {tree : Tree} {whole : Shape}

/-- The whole is a node. -/
theorem exists_whole (h : tree.Houses whole) :
    ∃ kind field children, whole = .node kind field children := by
  have hsits := h.sits
  cases whole with
  | leaf token field =>
    obtain ⟨parent, hhome, -⟩ := hsits
    cases hhome
  | node kind field children => exact ⟨kind, field, children, rfl⟩

/-- Every element of a tree stands for a part of its shape. -/
theorem exists_part (h : tree.Houses whole) (element : Element) (he : tree.Has element) :
    ∃ home shape site, whole.Part home shape site ∧ shape.element site = element := by
  refine Shape.Part.exists_of_between .whole ?_
  cases element with
  | node id =>
    refine ⟨Nat.zero_le _, ?_⟩
    rw [Site.past, ← h.nodes]
    exact Nat.lt_add_left _ he
  | token id =>
    refine ⟨Nat.zero_le _, ?_⟩
    rw [Site.past, ← h.leaves]
    exact Nat.lt_add_left _ he

/-- Every node stands for a part that is a node. -/
theorem exists_node (h : tree.Houses whole) {id : NodeId} (hid : id < tree.nodeCount) :
    ∃ home kind field children site, whole.Part home (.node kind field children) site ∧
      site.node = id := by
  obtain ⟨home, shape, site, hpart, helement⟩ := h.exists_part (.node id) hid
  cases shape with
  | leaf token field => cases helement
  | node kind field children =>
    exact ⟨home, kind, field, children, site, hpart, Element.node.inj helement⟩

/-- What a node lists is there, comes behind the node and names it as its parent. -/
theorem of_mem_elements (h : tree.Houses whole) {id : NodeId} (hid : id < tree.nodeCount)
    {element : Element} (hmem : element ∈ tree.elements id) :
    tree.Has element ∧ tree.home? element = some id ∧
      ∀ child, element = .node child → id < child := by
  obtain ⟨home, kind, field, children, site, hpart, rfl⟩ := h.exists_node hid
  obtain ⟨hlists, hall⟩ := hpart.sits h.sits
  rw [hlists.elements] at hmem
  obtain ⟨shape, -, before, rfl, hsits⟩ := hall.exists_of_mem hmem
  refine ⟨hsits.has, hsits.home?_element, fun child hchild => ?_⟩
  cases shape with
  | leaf token field => cases hchild
  | node kind' field' children' =>
    obtain rfl := Element.node.inj hchild
    show site.node < site.node + 1 + Shape.sizeAll before
    omega

/-- An element is listed by the node that it names as its parent. -/
theorem mem_elements_of_home (h : tree.Houses whole) (element : Element) (he : tree.Has element)
    {id : NodeId} (hhome : tree.home? element = some id) :
    id < tree.nodeCount ∧ element ∈ tree.elements id := by
  obtain ⟨home, shape, site, hpart, rfl⟩ := h.exists_part _ he
  rw [(hpart.sits h.sits).home?_element] at hhome
  subst hhome
  cases hpart with
  | @child _ kind field before after _ site hpart =>
    obtain ⟨hlists, -⟩ := hpart.sits h.sits
    refine ⟨(hpart.sits h.sits).has, ?_⟩
    rw [hlists.elements]
    exact Shape.mem_elementsFrom.mpr ⟨before, shape, after, rfl, rfl⟩

theorem pairwise_precedes (h : tree.Houses whole) {id : NodeId} (hid : id < tree.nodeCount) :
    (tree.elements id).Pairwise tree.Precedes := by
  obtain ⟨home, kind, field, children, site, hpart, rfl⟩ := h.exists_node hid
  obtain ⟨hlists, hall⟩ := hpart.sits h.sits
  rw [hlists.elements]
  exact hall.pairwise_precedes

/-- A node lists no element twice. -/
theorem nodup_elements (h : tree.Houses whole) {id : NodeId} (hid : id < tree.nodeCount) :
    (tree.elements id).Nodup := by
  refine (h.pairwise_precedes hid).imp ?_
  rintro element _ hprecedes rfl
  cases element with
  | node id => exact Nat.lt_irrefl _ (hprecedes.2 id id rfl rfl)
  | token id => exact Nat.lt_irrefl _ hprecedes.1

/-- Only the root has no parent. -/
theorem exists_home (h : tree.Houses whole) {element : Element} (he : tree.Has element)
    (hne : element ≠ .node root) : ∃ id, tree.home? element = some id := by
  obtain ⟨home, shape, site, hpart, rfl⟩ := h.exists_part _ he
  rw [(hpart.sits h.sits).home?_element]
  cases hpart with
  | whole =>
    obtain ⟨kind, field, children, rfl⟩ := h.exists_whole
    exact absurd rfl hne
  | child _ => exact ⟨_, rfl⟩

theorem root_lt (h : tree.Houses whole) : root < tree.nodeCount ∧ tree.parent? root = none := by
  obtain ⟨kind, field, children, rfl⟩ := h.exists_whole
  exact ⟨h.sits.has, h.sits.home?_element⟩

/-- Parents come before their children. -/
theorem parent_lt (h : tree.Houses whole) {id parent : NodeId} (hid : id < tree.nodeCount)
    (hparent : tree.parent? id = some parent) : parent < id := by
  obtain ⟨hlt, hmem⟩ := h.mem_elements_of_home (.node id) hid hparent
  exact (h.of_mem_elements hlt hmem).2.2 id rfl

/-- A node has no more ancestors than nodes come before it, so a larger bound finds the same ones.
-/
theorem ancestorsUpTo_eq (h : tree.Houses whole) {limit limit' id : Nat}
    (hid : id < tree.nodeCount) (hlimit : id < limit) (hlimit' : id < limit') :
    tree.ancestorsUpTo id limit = tree.ancestorsUpTo id limit' := by
  induction id using Nat.strong_induction_on generalizing limit limit' with
  | _ id ih =>
    obtain ⟨limit, rfl⟩ := Nat.exists_eq_succ_of_ne_zero (Nat.ne_zero_of_lt hlimit)
    obtain ⟨limit', rfl⟩ := Nat.exists_eq_succ_of_ne_zero (Nat.ne_zero_of_lt hlimit')
    rw [ancestorsUpTo, ancestorsUpTo]
    cases hparent : tree.parent? id with
    | none => rfl
    | some parent =>
      have hlt := h.parent_lt hid hparent
      exact congrArg (id :: ·) (ih parent hlt (Nat.lt_trans hlt hid)
        (Nat.lt_of_lt_of_le hlt (Nat.le_of_lt_succ hlimit))
        (Nat.lt_of_lt_of_le hlt (Nat.le_of_lt_succ hlimit')))

/-- The ancestors of a node are the node and the ancestors of its parent. -/
theorem ancestors_eq (h : tree.Houses whole) {id : NodeId} (hid : id < tree.nodeCount) :
    tree.ancestors id = id :: (tree.parent? id).elim [] tree.ancestors := by
  rw [ancestors, h.ancestorsUpTo_eq hid hid (Nat.lt_succ_of_lt hid), ancestorsUpTo]
  cases tree.parent? id <;> rfl

theorem mem_ancestors_self (h : tree.Houses whole) {id : NodeId} (hid : id < tree.nodeCount) :
    id ∈ tree.ancestors id := by
  rw [h.ancestors_eq hid]
  exact List.mem_cons_self

theorem mem_ancestors (h : tree.Houses whole) {id other : NodeId} (hid : id < tree.nodeCount) :
    other ∈ tree.ancestors id ↔
      other = id ∨ ∃ parent, tree.parent? id = some parent ∧ other ∈ tree.ancestors parent := by
  rw [h.ancestors_eq hid]
  cases tree.parent? id <;> simp

/-- The parent of an ancestor is an ancestor. -/
theorem mem_ancestors_trans (h : tree.Houses whole) {id middle parent : NodeId}
    (hid : id < tree.nodeCount) (hmiddle : middle ∈ tree.ancestors id)
    (hparent : tree.parent? middle = some parent) : parent ∈ tree.ancestors id := by
  induction id using Nat.strong_induction_on with
  | _ id ih =>
    rw [h.mem_ancestors hid] at hmiddle ⊢
    rcases hmiddle with rfl | ⟨above, habove, hmem⟩
    · have hlt := h.parent_lt hid hparent
      exact Or.inr ⟨parent, hparent, h.mem_ancestors_self (Nat.lt_trans hlt hid)⟩
    · have hlt := h.parent_lt hid habove
      exact Or.inr ⟨above, habove, ih above hlt (Nat.lt_trans hlt hid) hmem⟩

/-- An ancestor does not come behind its descendants. -/
theorem le_of_mem_ancestors (h : tree.Houses whole) {id above : Nat} (hid : id < tree.nodeCount)
    (habove : above ∈ tree.ancestors id) : above ≤ id := by
  induction id using Nat.strong_induction_on with
  | _ id ih =>
    rcases (h.mem_ancestors hid).mp habove with rfl | ⟨parent, hparent, hmem⟩
    · exact Nat.le_refl _
    · have hlt := h.parent_lt hid hparent
      exact Nat.le_trans (ih parent hlt (Nat.lt_trans hlt hid) hmem) (Nat.le_of_lt hlt)

/-- The way from a node down to one below it starts with a child. -/
theorem exists_child_toward (h : tree.Houses whole) {id above : NodeId} (hid : id < tree.nodeCount)
    (habove : above ∈ tree.ancestors id) (hne : above ≠ id) :
    ∃ child ∈ tree.ancestors id, tree.parent? child = some above := by
  induction id using Nat.strong_induction_on with
  | _ id ih =>
    obtain ⟨parent, hparent, hmem⟩ := ((h.mem_ancestors hid).mp habove).resolve_left hne
    by_cases heq : above = parent
    · exact ⟨id, h.mem_ancestors_self hid, heq ▸ hparent⟩
    · have hlt := h.parent_lt hid hparent
      obtain ⟨child, hchild, hhome⟩ := ih parent hlt (Nat.lt_trans hlt hid) hmem heq
      exact ⟨child, (h.mem_ancestors hid).mpr (Or.inr ⟨parent, hparent, hchild⟩), hhome⟩

/-- All nodes are below the root. -/
theorem root_mem_ancestors (h : tree.Houses whole) {id : NodeId} (hid : id < tree.nodeCount) :
    root ∈ tree.ancestors id := by
  induction id using Nat.strong_induction_on with
  | _ id ih =>
    by_cases hroot : id = root
    · exact hroot ▸ h.mem_ancestors_self hid
    · obtain ⟨parent, hparent⟩ := h.exists_home (show tree.Has (.node id) from hid)
        fun heq => hroot (Element.node.inj heq)
      have hlt := h.parent_lt hid hparent
      exact (h.mem_ancestors hid).mpr
        (Or.inr ⟨parent, hparent, ih parent hlt (Nat.lt_trans hlt hid)⟩)

/-- The interval of a node is made up of the intervals of its children. -/
theorem mem_tokensBelow (h : tree.Houses whole) {id : NodeId} (hid : id < tree.nodeCount)
    {token : TokenId} : token ∈ tree.tokensBelow id ↔
      ∃ element ∈ tree.elements id, token ∈ (tree.tokenRun element).positions := by
  obtain ⟨home, kind, field, children, site, hpart, rfl⟩ := h.exists_node hid
  obtain ⟨hlists, hall⟩ := hpart.sits h.sits
  rw [hlists.elements, tokensBelow, node_eq hlists.entry]
  exact hall.mem_positions

/-- A token in the interval of a node has the node among its ancestors. -/
theorem mem_ancestors_of_mem_tokensBelow (h : tree.Houses whole) {id : NodeId}
    (hid : id < tree.nodeCount) {token : TokenId} (hmem : token ∈ tree.tokensBelow id) :
    token < tree.leafCount ∧ id ∈ tree.ancestors (tree.leaf token).parent := by
  induction hn : tree.nodeCount - id using Nat.strong_induction_on generalizing id with
  | _ count ih =>
    subst hn
    obtain ⟨element, helement, htoken⟩ := (h.mem_tokensBelow hid).mp hmem
    obtain ⟨hhas, hhome, hbehind⟩ := h.of_mem_elements hid helement
    cases element with
    | token token' =>
      obtain rfl : token = token' := by simpa [tokenRun, Run.positions] using htoken
      obtain rfl : (tree.leaf token).parent = id := Option.some.inj hhome
      exact ⟨hhas, h.mem_ancestors_self hid⟩
    | node child =>
      have hlt := hbehind child rfl
      obtain ⟨hleaf, hchild⟩ := ih _ (Nat.sub_lt_sub_left hid hlt) hhas htoken rfl
      have hparent := (h.mem_elements_of_home (.token token) hleaf rfl).1
      exact ⟨hleaf, h.mem_ancestors_trans hparent hchild hhome⟩

/-- A token in the interval of a node is in the intervals of its ancestors. -/
theorem mem_tokensBelow_of_mem_ancestors (h : tree.Houses whole) {id above : NodeId}
    (hid : id < tree.nodeCount) {token : TokenId} (hmem : token ∈ tree.tokensBelow id)
    (habove : above ∈ tree.ancestors id) : token ∈ tree.tokensBelow above := by
  induction id using Nat.strong_induction_on with
  | _ id ih =>
    rcases (h.mem_ancestors hid).mp habove with rfl | ⟨parent, hparent, hmem'⟩
    · exact hmem
    · obtain ⟨hlt, hlisted⟩ := h.mem_elements_of_home (.node id) hid hparent
      exact ih parent (h.parent_lt hid hparent) hlt
        ((h.mem_tokensBelow hlt).mpr ⟨.node id, hlisted, hmem⟩) hmem'

/-- The interval of a node holds the tokens that are below it, and no others. -/
theorem mem_tokensBelow_iff (h : tree.Houses whole) {id : NodeId} (hid : id < tree.nodeCount)
    (token : TokenId) : token ∈ tree.tokensBelow id ↔
      token < tree.leafCount ∧ id ∈ tree.ancestors (tree.leaf token).parent := by
  constructor
  · exact h.mem_ancestors_of_mem_tokensBelow hid
  · rintro ⟨hleaf, habove⟩
    obtain ⟨hlt, hlisted⟩ := h.mem_elements_of_home (.token token) hleaf rfl
    refine h.mem_tokensBelow_of_mem_ancestors hlt ?_ habove
    exact (h.mem_tokensBelow hlt).mpr ⟨.token token, hlisted, by simp [tokenRun, Run.positions]⟩

/-- The children of a node lie side by side over its span, which starts where the tokens in front of
it have stopped. -/
theorem abut (h : tree.Houses whole) {id : NodeId} (hid : id < tree.nodeCount) :
    tree.Abut (tree.nodeSpan id).start (tree.elements id) (tree.nodeSpan id).stop ∧
      (tree.nodeSpan id).start = tree.reached (tree.node id).tokens.first := by
  obtain ⟨home, kind, field, children, site, hpart, rfl⟩ := h.exists_node hid
  obtain ⟨hlists, hall⟩ := hpart.sits h.sits
  rw [hlists.elements, nodeSpan, node_eq hlists.entry]
  exact ⟨hall.abut, hpart.reached h.sits⟩

/-- The root covers the text. -/
theorem nodeSpan_root (h : tree.Houses whole) :
    tree.nodeSpan root = ⟨0, tree.text.utf8ByteSize⟩ := by
  obtain ⟨kind, field, children, rfl⟩ := h.exists_whole
  rw [h.text, ← Nat.zero_add (widthOf _)]
  exact h.sits.elementSpan_element

/-- The list of a node lies within the table of children. -/
theorem children_fit (h : tree.Houses whole) {id : NodeId} (hid : id < tree.nodeCount) :
    (tree.node id).children.first + (tree.node id).children.count ≤ tree.children.size := by
  obtain ⟨home, kind, field, children, site, hpart, rfl⟩ := h.exists_node hid
  obtain ⟨hlists, -⟩ := hpart.sits h.sits
  rw [node_eq hlists.entry]
  exact hlists.fits

/-- Every position of a node's list holds one of its children. -/
theorem exists_listed (h : tree.Houses whole) {id : NodeId} (hid : id < tree.nodeCount)
    {position : Nat} (hmem : position ∈ (tree.node id).children.positions) :
    ∃ element, tree.children[position]? = some element ∧ element ∈ tree.elements id := by
  have hfit := h.children_fit hid
  obtain ⟨hge, hlt⟩ := List.mem_range'_1.mp hmem
  have hsize : position < tree.children.size := Nat.lt_of_lt_of_le hlt hfit
  refine ⟨tree.children[position], Array.getElem?_eq_getElem hsize, ?_⟩
  rw [elements, Array.mem_toList_iff, Array.mem_extract_iff_getElem]
  exact ⟨position - (tree.node id).children.first, by omega, by simp [Nat.add_sub_cancel' hge]⟩

/-- The lists of different nodes share no position. -/
theorem disjoint_positions (h : tree.Houses whole) {id id' : NodeId} (hid : id < tree.nodeCount)
    (hid' : id' < tree.nodeCount) (hne : id ≠ id') :
    (tree.node id).children.positions.Disjoint (tree.node id').children.positions := by
  intro position hmem hmem'
  -- the element at a shared position would have two parents
  obtain ⟨element, helement, hlisted⟩ := h.exists_listed hid hmem
  obtain ⟨element', helement', hlisted'⟩ := h.exists_listed hid' hmem'
  obtain rfl := Option.some.inj (helement.symm.trans helement')
  have hhome := (h.of_mem_elements hid hlisted).2.1
  have hhome' := (h.of_mem_elements hid' hlisted').2.1
  exact hne (Option.some.inj (hhome.symm.trans hhome'))

end Tree.Houses

end ScriptTree

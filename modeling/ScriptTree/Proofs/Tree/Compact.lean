import ScriptTree.Proofs.Tree.Arena

/-!
How large the numbers in the tables of a tree are. None of them is larger than the number of nodes
and tokens together, but for the positions of layout, which are bounded by the number of its pieces.
So a tree is refused for its size only if it has as many entries as 32 bits can count.
-/

namespace ScriptTree

namespace BuildStep

def elementCount : BuildStep → Nat
  | .start _ _ => 1
  | .token _ _ _ _ _ => 1
  | .finish => 0

def pieceCount : BuildStep → Nat
  | .token leading _ _ trailing _ => leading.length + trailing.length
  | _ => 0

theorem sum_elementCount_le (steps : List BuildStep) :
    (steps.map elementCount).sum ≤ steps.length := by
  induction steps with
  | nil => exact Nat.le_refl _
  | cons step rest ih =>
    have hone : step.elementCount ≤ 1 := by cases step <;> simp [elementCount]
    rw [List.map_cons, List.sum_cons, List.length_cons]
    omega

end BuildStep

namespace Shape

mutual

theorem sum_pieceCount_steps : ∀ shape : Shape,
    (shape.steps.map BuildStep.pieceCount).sum = piecesOf shape.tokens
  | .leaf token field => by simp [steps, tokens, piecesOf, BuildStep.pieceCount]
  | .node kind field children => by
    simp [steps, tokens, BuildStep.pieceCount, sum_pieceCount_stepsAll children]

theorem sum_pieceCount_stepsAll : ∀ shapes : List Shape,
    ((stepsAll shapes).map BuildStep.pieceCount).sum = piecesOf (tokensAll shapes)
  | [] => by simp [piecesOf]
  | shape :: rest => by
    simp [stepsAll, tokensAll, sum_pieceCount_steps shape, sum_pieceCount_stepsAll rest]

end

end Shape

/-- Every piece of layout around tokens has a byte of its own. -/
theorem Tiled.piecesOf_le {a b : Cursor} {tokens : List Token} (h : Tiled a tokens b) :
    a.offset + piecesOf tokens ≤ b.offset := by
  induction h with
  | nil => exact Nat.le_refl _
  | @cons a b c token tokens first _ ih =>
    obtain ⟨front, back, hleading, hpasses, -, htrailing⟩ := first
    have hfront := hleading.length_le
    have hback := htrailing.length_le
    have hle := hpasses.offset_le
    simp only [piecesOf, List.map_cons, List.sum_cons] at ih ⊢
    omega

namespace Builder

/-- The numbers of a tree in the making are bounded by how many nodes, tokens and pieces of layout
it has. Children that wait for the end of their node are counted with those in the table. -/
structure Within (builder : Builder) (elements pieces : Nat) : Prop where
  sizes : builder.nodes.size ≤ elements ∧ builder.leaves.size ≤ elements
  listed : builder.children.size + (builder.opened.map (·.children.length)).sum ≤ elements
  laid : builder.trivia.size ≤ pieces
  nodes : ∀ node ∈ builder.nodes, ∀ number ∈ node.numbers, number ≤ elements
  leaves : ∀ leaf ∈ builder.leaves, leaf.parent ≤ elements ∧
    leaf.leading.first + leaf.leading.count ≤ pieces ∧
    leaf.trailing.first + leaf.trailing.count ≤ pieces
  children : ∀ child ∈ builder.children, child.number ≤ elements
  opened : ∀ inner ∈ builder.opened, inner.id ≤ elements ∧
    ∀ child ∈ inner.children, child.number ≤ elements

variable {builder after : Builder} {elements pieces elements' pieces' : Nat} {step : BuildStep}
  {steps : List BuildStep}

theorem sum_addChild_le (opened : List OpenNode) (child : Element) :
    ((addChild opened child).map (·.children.length)).sum ≤
      (opened.map (·.children.length)).sum + 1 := by
  cases opened with
  | nil => simp [addChild]
  | cons inner outer => simp [addChild]; omega

/-- A child has joined the innermost open node. -/
theorem mem_addChild {opened : List OpenNode} {child : Element} {inner : OpenNode}
    (h : inner ∈ addChild opened child) : ∃ inner' ∈ opened, inner'.id = inner.id ∧
      ∀ other ∈ inner.children, other = child ∨ other ∈ inner'.children := by
  cases opened with
  | nil => cases h
  | cons first outer =>
    rcases List.mem_cons.mp h with rfl | h
    · exact ⟨first, List.mem_cons_self, rfl, fun other hother => List.mem_cons.mp hother⟩
    · exact ⟨inner, List.mem_cons_of_mem _ h, rfl, fun other hother => Or.inr hother⟩

namespace Within

theorem empty (text : String) : (Builder.empty text).Within 0 0 :=
  ⟨by simp [Builder.empty], by simp [Builder.empty], by simp [Builder.empty],
    by simp [Builder.empty], by simp [Builder.empty], by simp [Builder.empty],
    by simp [Builder.empty]⟩

/-- What is within some bounds is within larger ones. -/
theorem mono (h : builder.Within elements pieces) (he : elements ≤ elements')
    (hp : pieces ≤ pieces') : builder.Within elements' pieces' where
  sizes := ⟨h.sizes.1.trans he, h.sizes.2.trans he⟩
  listed := h.listed.trans he
  laid := h.laid.trans hp
  nodes node hnode number hnumber := (h.nodes node hnode number hnumber).trans he
  leaves leaf hleaf := by
    obtain ⟨hparent, hleading, htrailing⟩ := h.leaves leaf hleaf
    exact ⟨hparent.trans he, hleading.trans hp, htrailing.trans hp⟩
  children child hchild := (h.children child hchild).trans he
  opened inner hinner := by
    obtain ⟨hid, hchildren⟩ := h.opened inner hinner
    exact ⟨hid.trans he, fun child hchild => (hchildren child hchild).trans he⟩

/-- A child with the next number joins the innermost open node. -/
theorem opened_addChild (h : builder.Within elements pieces) {child : Element}
    (hchild : child.number ≤ elements + 1) : ∀ inner ∈ addChild builder.opened child,
      inner.id ≤ elements + 1 ∧ ∀ other ∈ inner.children, other.number ≤ elements + 1 := by
  intro inner hinner
  obtain ⟨inner', hinner', hid, hchildren⟩ := mem_addChild hinner
  obtain ⟨hle, hall⟩ := h.opened inner' hinner'
  refine ⟨hid ▸ Nat.le_succ_of_le hle, fun other hother => ?_⟩
  rcases hchildren other hother with rfl | hother
  · exact hchild
  · exact Nat.le_succ_of_le (hall other hother)

/-- A node that is started is one more element. -/
theorem entered (h : builder.Within elements pieces) (kind : Kind) (field : Option Field) :
    (builder.entered kind field).Within (elements + 1) pieces := by
  have hgrown := h.mono (Nat.le_succ elements) (Nat.le_refl pieces)
  obtain ⟨hnodes, hleaves⟩ := h.sizes
  have hsum := sum_addChild_le builder.opened (.node builder.nodes.size)
  refine ⟨⟨?_, hgrown.sizes.2⟩, ?_, h.laid, ?_, hgrown.leaves, hgrown.children, ?_⟩
  · simpa [Builder.entered] using hnodes
  · have hlisted := h.listed
    simp only [Builder.entered, List.map_cons, List.sum_cons, List.length_nil] at hsum ⊢
    omega
  · intro node hnode number hnumber
    rcases Array.mem_push.mp hnode with hnode | rfl
    · exact hgrown.nodes node hnode number hnumber
    · simp only [newNode, Node.numbers, Run.numbers, List.mem_append, Option.mem_toList,
        List.mem_cons, List.not_mem_nil, or_false] at hnumber
      rcases hnumber with (hparent | hnumber) | hnumber
      · obtain ⟨inner, hinner, rfl⟩ := Option.map_eq_some_iff.mp hparent
        exact (hgrown.opened inner (List.mem_of_head? hinner)).1
      · omega
      · omega
  · intro inner hinner
    rcases List.mem_cons.mp hinner with rfl | hinner
    · refine ⟨Nat.le_succ_of_le hnodes, fun other hother => ?_⟩
      cases hother
    · have hnew : (Element.node builder.nodes.size).number ≤ elements + 1 :=
        Nat.le_succ_of_le hnodes
      exact h.opened_addChild hnew inner hinner

/-- A node that is ended hands its children over and makes no more of them. -/
theorem left {inner : OpenNode} {outer : List OpenNode} (h : builder.Within elements pieces)
    (hopened : builder.opened = inner :: outer) :
    (builder.left inner.id inner.children.reverse outer).Within elements pieces := by
  have hlisted := h.listed
  rw [hopened, List.map_cons, List.sum_cons] at hlisted
  obtain ⟨-, hchildren⟩ := h.opened inner (by simp [hopened])
  refine ⟨⟨?_, h.sizes.2⟩, ?_, h.laid, ?_, h.leaves, ?_, ?_⟩
  · simpa [Builder.left] using h.sizes.1
  · simpa [Builder.left, Nat.add_assoc] using hlisted
  · -- the node that ends is an old one with a new list of children and a new end of its tokens
    intro node hnode number hnumber
    obtain ⟨id, hid⟩ := Array.mem_iff_getElem?.mp hnode
    simp only [Builder.left, Array.getElem?_modify] at hid
    split at hid
    · obtain ⟨old, hold, rfl⟩ := Option.map_eq_some_iff.mp hid
      have holds := h.nodes old (Array.mem_of_getElem? hold)
      have hleaves := h.sizes.2
      have hfirst := holds old.tokens.first (by simp [Node.numbers])
      simp only [finished, Node.numbers, Run.numbers, List.mem_append, List.mem_cons,
        List.length_reverse, List.not_mem_nil, or_false] at hnumber
      rcases hnumber with (hparent | hnumber) | hnumber
      · exact holds number (by simp [Node.numbers, hparent])
      · omega
      · omega
    · exact h.nodes node (Array.mem_of_getElem? hid) number hnumber
  · intro child hchild
    rcases Array.mem_append.mp hchild with hchild | hchild
    · exact h.children child hchild
    · exact hchildren child (by simpa using hchild)
  · intro other hother
    exact h.opened other (hopened ▸ List.mem_cons_of_mem _ hother)

/-- A token is one more element, and has its pieces of layout. -/
theorem token {inner : OpenNode} {outer : List OpenNode} {leading trailing : List Piece}
    {kind : Kind} {size : Nat} {field : Option Field} (h : builder.Within elements pieces)
    (hopened : builder.opened = inner :: outer) :
    (builder.laid inner.id leading kind size trailing field).Within (elements + 1)
      (pieces + (leading.length + trailing.length)) := by
  have hgrown := h.mono (Nat.le_succ elements)
    (Nat.le_add_right pieces (leading.length + trailing.length))
  have hlaid := h.laid
  have hsum := sum_addChild_le builder.opened (.token builder.leaves.size)
  refine ⟨⟨hgrown.sizes.1, ?_⟩, ?_, ?_, hgrown.nodes, ?_, hgrown.children, ?_⟩
  · simpa [Builder.laid] using h.sizes.2
  · have hlisted := h.listed
    simp only [Builder.laid] at hsum ⊢
    omega
  · simp only [Builder.laid, Array.size_append, List.size_toArray, length_entriesFrom]
    omega
  · intro leaf hleaf
    rcases Array.mem_push.mp hleaf with hleaf | rfl
    · exact hgrown.leaves leaf hleaf
    · refine ⟨(hgrown.opened inner (by simp [hopened])).1, ?_, ?_⟩
      · simp only [newLeaf]
        omega
      · simp only [newLeaf]
        omega
  · exact h.opened_addChild (Nat.le_succ_of_le h.sizes.2)

theorem of_step (h : builder.Within elements pieces) (hstep : builder.step step = .ok after) :
    after.Within (elements + step.elementCount) (pieces + step.pieceCount) := by
  cases step with
  | start kind field =>
    obtain rfl := eq_entered_of_step hstep
    exact h.entered kind field
  | token leading kind size trailing field =>
    obtain ⟨inner, outer, hopened, rfl⟩ := eq_laid_of_step hstep
    exact h.token hopened
  | finish =>
    obtain ⟨inner, outer, hopened, rfl⟩ := eq_left_of_step hstep
    exact h.left hopened

/-- By induction on the steps, each of which adds what it counts for. -/
theorem of_run (h : builder.Within elements pieces) (hrun : builder.run steps = .ok after) :
    after.Within (elements + (steps.map BuildStep.elementCount).sum)
      (pieces + (steps.map BuildStep.pieceCount).sum) := by
  induction steps generalizing builder elements pieces with
  | nil =>
    obtain rfl := Except.ok.inj hrun
    exact h
  | cons step rest ih =>
    rw [← List.singleton_append] at hrun
    obtain ⟨middle, hstep, hrest⟩ := run_append_ok hrun
    rw [run_singleton] at hstep
    simpa [Nat.add_assoc] using ih (h.of_step hstep) hrest

end Within

end Builder

/-- A tree of fewer than `2 ^ 32` nodes and tokens, and of fewer than `2 ^ 32` pieces of layout, has
numbers of 32 bits. -/
theorem Tree.isCompact_of_assemble {text : String} {steps : List BuildStep} {tree : Tree}
    (h : Tree.assemble text steps = .ok tree)
    (helements : (steps.map BuildStep.elementCount).sum < UInt32.size)
    (hpieces : (steps.map BuildStep.pieceCount).sum < UInt32.size) : tree.isCompact = true := by
  obtain ⟨after, hrun, -, -, -, rfl⟩ := Tree.ends_of_assemble h
  have hwithin := (Builder.Within.empty text).of_run hrun
  rw [Nat.zero_add, Nat.zero_add] at hwithin
  rw [isCompact, List.all_eq_true]
  intro number hnumber
  rw [decide_eq_true_iff]
  simp only [numbers, List.mem_append, List.mem_flatMap, List.mem_map,
    Array.mem_toList_iff] at hnumber
  rcases hnumber with (⟨node, hnode, hnumber⟩ | ⟨leaf, hleaf, hnumber⟩) | ⟨child, hchild, rfl⟩
  · exact Nat.lt_of_le_of_lt (hwithin.nodes node hnode number hnumber) helements
  · obtain ⟨hparent, hleading, htrailing⟩ := hwithin.leaves leaf hleaf
    simp only [Leaf.numbers, Run.numbers, List.mem_cons, List.mem_append, List.not_mem_nil,
      or_false] at hnumber
    rcases hnumber with rfl | hnumber
    · exact Nat.lt_of_le_of_lt hparent helements
    · omega
  · exact Nat.lt_of_le_of_lt (hwithin.children child hchild) helements

namespace Builder

/-- No step by itself finds the tables too large; only the finished tree is asked. -/
theorem step_ne_tooMany (builder : Builder) (step : BuildStep) :
    builder.step step ≠ .error .tooMany := by
  intro h
  cases step with
  | start kind field =>
    simp only [Builder.step, start] at h
    split at h <;> cases h
  | token leading kind size trailing field =>
    simp only [Builder.step, token] at h
    split at h
    · cases h
    split at h
    · split at h <;> cases h
    · cases h
  | finish =>
    simp only [Builder.step, finishNode] at h
    split at h <;> cases h

/-- Nor does a run of steps. -/
theorem run_ne_tooMany (builder : Builder) (steps : List BuildStep) :
    builder.run steps ≠ .error .tooMany := by
  induction steps generalizing builder with
  | nil => exact nofun
  | cons step rest ih =>
    rw [run_cons]
    cases hs : builder.step step with
    | error fault =>
      rintro h
      obtain rfl := Except.error.inj h
      exact step_ne_tooMany builder step hs
    | ok next => exact ih next

end Builder

/-- Steps are refused for their number exactly if a number of the tree that they put together has
more than 32 bits. -/
theorem Tree.build_eq_tooMany_iff {text : String} {steps : List BuildStep} :
    Tree.build text steps = .error .tooMany ↔
      ∃ tree, Tree.assemble text steps = .ok tree ∧ ∃ number ∈ tree.numbers, 2 ^ 32 ≤ number := by
  have hassemble : Tree.assemble text steps ≠ .error .tooMany := by
    rw [Tree.assemble]
    cases hr : (Builder.empty text).run steps with
    | error fault =>
      rintro h
      obtain rfl := Except.error.inj h
      exact Builder.run_ne_tooMany _ _ hr
    | ok after =>
      show after.finish ≠ _
      unfold Builder.finish
      repeat' split
      all_goals
        intro h
        cases h
  rw [Tree.build]
  cases ha : Tree.assemble text steps with
  | error fault =>
    constructor
    · intro h
      obtain rfl := Except.error.inj h
      exact absurd ha hassemble
    · rintro ⟨tree, htree, -⟩
      cases htree
  | ok tree =>
    show tree.compact = .error .tooMany ↔ _
    rw [Tree.compact]
    split
    · next hcompact =>
      constructor
      · intro h
        cases h
      · rintro ⟨tree', htree, number, hnumber, hle⟩
        obtain rfl := Except.ok.inj htree
        exact absurd (isCompact_iff.mp hcompact number hnumber) (Nat.not_lt.mpr hle)
    · next hcompact =>
      refine ⟨fun _ => ⟨tree, rfl, ?_⟩, fun _ => rfl⟩
      simpa [isCompact_iff, UInt32.size] using hcompact

theorem Tree.build_of_not_isCompact {text : String} {steps : List BuildStep} {tree : Tree}
    (h : Tree.assemble text steps = .ok tree) (hcompact : ¬ tree.isCompact = true) :
    Tree.build text steps = .error .tooMany := by
  rw [Tree.build, h]
  exact if_neg hcompact

/-- A tree of a node whose tokens cover a text has numbers of 32 bits, unless it takes too many
steps: the text has room for all layout. -/
theorem Tree.isCompact_node {text : String} {kind : Kind} {field : Option Field}
    {children : List Shape} {stop : Cursor} {tree : Tree}
    (h : Tiled (Cursor.ofText text) (Shape.tokensAll children) stop)
    (hassemble : Tree.assemble text (Shape.node kind field children).steps = .ok tree)
    (hsteps : (Shape.node kind field children).steps.length < UInt32.size) :
    tree.isCompact = true := by
  have helements := BuildStep.sum_elementCount_le (Shape.node kind field children).steps
  obtain ⟨chars, hpasses⟩ := h.passes
  have hend := (Cursor.Within.passes (Cursor.within_ofText text) hpasses).offset_le
  have hpieces : piecesOf (Shape.tokensAll children) ≤ text.utf8ByteSize := by
    have hle := h.piecesOf_le
    omega
  refine Tree.isCompact_of_assemble hassemble (Nat.lt_of_le_of_lt helements hsteps) ?_
  rw [Shape.sum_pieceCount_steps, Shape.tokens]
  exact Nat.lt_of_le_of_lt hpieces (Tree.size_lt_of_assemble hassemble)

end ScriptTree

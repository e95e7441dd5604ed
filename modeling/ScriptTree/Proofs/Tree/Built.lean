import ScriptTree.Proofs.Tree.Lay
import ScriptTree.Proofs.Tree.Shown

/-!
The tree of a shape. Building a shape whose tokens lie side by side on the text succeeds, and the
tables then show the shape, token by token and node by node.
-/

namespace ScriptTree

def Builder.tables (builder : Builder) : Tree :=
  { text := builder.text
    nodes := builder.nodes
    leaves := builder.leaves
    trivia := builder.trivia
    children := builder.children }

def Leaf.place (leaf : Leaf) : Kind × Span :=
  (leaf.kind, leaf.span)

def Token.place (token : Token) : Kind × Span :=
  (token.kind, token.span)

structure Lays (builder after : Builder) (home : NodeId) (shapes : List Shape)
    (elements : List Element) (placed : List Leaf) (a c : Cursor) : Prop where
  text : after.text = builder.text
  offset : after.offset = c.offset
  nodes : ∃ more, after.nodes = builder.nodes ++ more
  leaves : after.leaves = builder.leaves ++ placed.toArray
  trivia : ∃ more, after.trivia = builder.trivia ++ more ∧
    ∀ entry ∈ more, (entry.span.read? builder.text).isSome = true
  children : ∃ more, after.children = builder.children ++ more
  shown : Shape.ShownAll after.tables builder.nodes.size shapes elements
  kinds : after.nodes.toList.map (·.kind) =
    builder.nodes.toList.map (·.kind) ++ Shape.kindsAll shapes
  tokens : placed.map Leaf.place = (Shape.tokensAll shapes).map Token.place
  reads : ∀ more, ∃ chars parts, a.Passes chars c ∧
    placed.map (fun leaf => (leaf.spanIn (after.trivia ++ more)).read? builder.text) =
      parts.map some ∧ String.join parts = String.ofList chars
  covered : ∀ holds, Shape.AllOf holds shapes → ∀ id, builder.nodes.size ≤ id →
    id < after.nodes.size → ∃ kind field children, holds kind children ∧
      Shape.Shown after.tables builder.nodes.size (.node kind field children) (.node id)
  housed : ∀ (id : TokenId) (leaf : Leaf), builder.leaves.size ≤ id →
    after.leaves[id]? = some leaf →
    (leaf.parent = home ∧ .token id ∈ elements) ∨
    (builder.nodes.size ≤ leaf.parent ∧ ∃ node elements,
      after.tables.Lists leaf.parent node elements ∧ .token id ∈ elements)

namespace Lays

variable {builder middle after : Builder} {home : NodeId} {a b c : Cursor}

theorem nil (builder : Builder) (home : NodeId) (h : builder.offset = a.offset) :
    Lays builder builder home [] [] [] a a := by
  refine ⟨rfl, h, ⟨#[], by simp⟩, by simp, ⟨#[], by simp, by simp⟩, ⟨#[], by simp⟩, rfl, ?_, rfl,
    ?_, ?_, ?_⟩
  · simp [Shape.kindsAll]
  · exact fun _ => ⟨[], [], .refl a, rfl, rfl⟩
  · intro _ _ id hle hlt
    omega
  · intro id leaf hle hleaf
    have := (Array.getElem?_eq_some_iff.mp hleaf).1
    omega

/-- The tables from a node on are kept by what is laid down later. -/
theorem keeps {shapes : List Shape} {elements : List Element} {placed : List Leaf}
    (h : Lays middle after home shapes elements placed b c) (base : Nat) :
    Tree.Keeps base middle.tables after.tables := by
  obtain ⟨nodes, hnodes⟩ := h.nodes
  refine ⟨?_, ?_, h.children⟩
  · intro id node _ hnode
    change middle.nodes[id]? = some node at hnode
    show after.nodes[id]? = some node
    rw [hnodes, Array.getElem?_append_left (Array.getElem?_eq_some_iff.mp hnode).1]
    exact hnode
  · intro id leaf hleaf
    change middle.leaves[id]? = some leaf at hleaf
    show after.leaves[id]? = some leaf
    rw [h.leaves, Array.getElem?_append_left (Array.getElem?_eq_some_iff.mp hleaf).1]
    exact hleaf

/-- Shapes side by side. -/
theorem append {xs ys : List Shape} {elements elements' : List Element} {placed placed' : List Leaf}
    (h : Lays builder middle home xs elements placed a b)
    (h' : Lays middle after home ys elements' placed' b c) :
    Lays builder after home (xs ++ ys) (elements ++ elements') (placed ++ placed') a c := by
  obtain ⟨nodes, hnodes⟩ := h.nodes
  obtain ⟨nodes', hnodes'⟩ := h'.nodes
  obtain ⟨trivia, htrivia, hreadable⟩ := h.trivia
  obtain ⟨trivia', htrivia', hreadable'⟩ := h'.trivia
  obtain ⟨children, hchildren⟩ := h.children
  obtain ⟨children', hchildren'⟩ := h'.children
  have hle : builder.nodes.size ≤ middle.nodes.size := by
    rw [hnodes, Array.size_append]
    exact Nat.le_add_right _ _
  -- what was shown before the second run is still shown behind it
  have hkeeps := h'.keeps builder.nodes.size
  have hbase : Tree.Keeps middle.nodes.size after.tables after.tables :=
    ⟨fun _ _ _ h => h, fun _ _ h => h, #[], by simp⟩
  refine ⟨h'.text.trans h.text, h'.offset, ⟨nodes ++ nodes', ?_⟩, ?_, ⟨trivia ++ trivia', ?_, ?_⟩,
    ⟨children ++ children', ?_⟩, ?_, ?_, ?_, ?_, ?_, ?_⟩
  · rw [hnodes', hnodes, Array.append_assoc]
  · rw [h'.leaves, h.leaves]
    simp
  · rw [htrivia', htrivia, Array.append_assoc]
  · intro entry hmem
    rcases Array.mem_append.mp hmem with hmem | hmem
    · exact hreadable entry hmem
    · rw [← h.text]
      exact hreadable' entry hmem
  · rw [hchildren', hchildren, Array.append_assoc]
  · exact Shape.shownAll_append (h.shown.keeps hkeeps (Nat.le_refl _))
      (h'.shown.keeps hbase hle)
  · rw [h'.kinds, h.kinds, Shape.kindsAll_append, List.append_assoc]
  · rw [Shape.tokensAll_append, List.map_append, List.map_append, h.tokens, h'.tokens]
  · intro more
    obtain ⟨chars, parts, hpasses, hparts, hjoin⟩ := h.reads (trivia' ++ more)
    obtain ⟨chars', parts', hpasses', hparts', hjoin'⟩ := h'.reads more
    refine ⟨chars ++ chars', parts ++ parts', hpasses.trans hpasses', ?_, ?_⟩
    · rw [← Array.append_assoc, ← htrivia'] at hparts
      rw [h.text] at hparts'
      rw [List.map_append, hparts, hparts', List.map_append]
    · rw [String.join_append, hjoin, hjoin', String.ofList_append]
  · intro holds hall id hge hlt
    obtain ⟨hx, hy⟩ := Shape.allOf_append.mp hall
    by_cases hid : id < middle.nodes.size
    · obtain ⟨kind, field, children, hholds, hshown⟩ := h.covered holds hx id hge hid
      exact ⟨kind, field, children, hholds, hshown.keeps hkeeps (Nat.le_refl _)⟩
    · obtain ⟨kind, field, children, hholds, hshown⟩ :=
        h'.covered holds hy id (Nat.not_lt.mp hid) hlt
      exact ⟨kind, field, children, hholds, hshown.keeps hbase hle⟩
  · intro id leaf hge hleaf
    by_cases hid : id < middle.leaves.size
    · -- a leaf of the first run
      rw [h'.leaves, Array.getElem?_append_left hid] at hleaf
      rcases h.housed id leaf hge hleaf with ⟨hp, hmem⟩ | ⟨hp, node, es, hlists, hmem⟩
      · exact Or.inl ⟨hp, List.mem_append_left _ hmem⟩
      · exact Or.inr ⟨hp, node, es, hlists.keeps hkeeps hp, hmem⟩
    · rcases h'.housed id leaf (Nat.not_lt.mp hid) hleaf with
        ⟨hp, hmem⟩ | ⟨hp, node, es, hlists, hmem⟩
      · exact Or.inl ⟨hp, List.mem_append_right _ hmem⟩
      · exact Or.inr ⟨Nat.le_trans hle hp, node, es, hlists, hmem⟩

/-- A token. -/
theorem leaf {inner : OpenNode} {outer : List OpenNode} {token : Token} (h : token.Fills a b)
    (hopen : builder.opened = inner :: outer) (ho : builder.offset = a.offset)
    (hw : a.Within builder.text) (hsize : builder.text.utf8ByteSize < UInt32.size)
    (field : Option Field) :
    ∃ after placed,
      builder.step (.token token.leading token.kind token.span.size token.trailing field) =
        .ok after ∧
      after.opened = Builder.addChild builder.opened (.token builder.leaves.size) ∧
      Lays builder after inner.id [.leaf token field] [.token builder.leaves.size]
        [placed] a b := by
  obtain ⟨first, last, hleading, htrailing, hspan, hfirst, hlast, hstep⟩ :=
    Builder.token_eq h hopen ho hw hsize field
  obtain ⟨chars, hpasses⟩ := h.passes
  let placed : Leaf :=
    { kind := token.kind
      field
      parent := inner.id
      span := token.span
      leading := ⟨builder.trivia.size, token.leading.length⟩
      trailing := ⟨builder.trivia.size + token.leading.length, token.trailing.length⟩ }
  refine ⟨_, placed, hstep, rfl, ?_⟩
  refine ⟨rfl, rfl, ⟨#[], by simp⟩, by simp [placed], ⟨_, Array.append_assoc, ?_⟩,
    ⟨#[], by simp⟩, ?_, ?_, ?_, ?_, ?_, ?_⟩
  · intro entry hmem
    rcases Array.mem_append.mp hmem with hmem | hmem
    · exact hleading.readable hw entry (by simpa using hmem)
    · exact htrailing.readable hlast entry (by simpa using hmem)
  · refine ⟨_, [], rfl, ⟨builder.leaves.size, placed, rfl, ?_, rfl, rfl⟩, rfl⟩
    exact Array.getElem?_push_size
  · simp [Shape.kindsAll, Shape.kinds]
  · simp [Shape.tokens, Leaf.place, Token.place, placed]
  · intro more
    refine ⟨chars, [String.ofList chars], hpasses, ?_, by simp [String.join]⟩
    rw [List.map_singleton, Leaf.spanIn_eq hleading htrailing hspan rfl rfl,
      hw.read?_passes hpasses]
    rfl
  · intro _ _ id hle hlt
    exact absurd hlt (Nat.not_lt.mpr hle)
  · intro id leaf hle hleaf
    have hlt : id < (builder.leaves.push placed).size := (Array.getElem?_eq_some_iff.mp hleaf).1
    rw [Array.size_push] at hlt
    obtain rfl : id = builder.leaves.size := Nat.le_antisymm (Nat.le_of_lt_succ hlt) hle
    rw [Array.getElem?_push_size] at hleaf
    obtain rfl := Option.some.inj hleaf
    exact Or.inl ⟨rfl, by simp⟩

end Lays

namespace Builder

def newNode (builder : Builder) (kind : Kind) (field : Option Field) : Node :=
  { kind
    field
    parent := builder.opened.head?.map (·.id)
    children := ⟨0, 0⟩
    tokens := ⟨builder.leaves.size, 0⟩
    span := Span.point builder.offset }

def entered (builder : Builder) (kind : Kind) (field : Option Field) : Builder :=
  { builder with
    nodes := builder.nodes.push (builder.newNode kind field)
    opened := ⟨builder.nodes.size, []⟩ :: addChild builder.opened (.node builder.nodes.size) }

theorem step_start {builder : Builder} (h : builder.opened ≠ [] ∨ builder.nodes.size = 0)
    (kind : Kind) (field : Option Field) :
    builder.step (.start kind field) = .ok (builder.entered kind field) := by
  have hroot : ((builder.opened.head?.map (·.id)).isNone && builder.nodes.size != 0) = false := by
    rcases h with h | h
    · cases ho : builder.opened with
      | nil => exact absurd ho h
      | cons inner outer => rfl
    · simp [h]
  simp only [step, start, hroot]
  rfl

def finished (builder : Builder) (count : Nat) (node : Node) : Node :=
  { node with
    children := ⟨builder.children.size, count⟩
    tokens := ⟨node.tokens.first, builder.leaves.size - node.tokens.first⟩
    span := ⟨node.span.start, builder.offset⟩ }

def left (builder : Builder) (id : NodeId) (elements : List Element) (outer : List OpenNode) :
    Builder :=
  { builder with
    nodes := builder.nodes.modify id (builder.finished elements.length)
    children := builder.children ++ elements.toArray
    opened := outer }

theorem step_finish {builder : Builder} {id : NodeId} {elements : List Element}
    {outer : List OpenNode} (h : builder.opened = ⟨id, elements.reverse⟩ :: outer) :
    builder.step .finish = .ok (builder.left id elements outer) := by
  have happend : builder.children ++ elements = builder.children ++ elements.toArray :=
    Array.ext' (by simp)
  simp [step, finishNode, h, left, happend]
  rfl

end Builder

theorem modify_push_append {α : Type} (front back : Array α) (entry : α) (f : α → α) :
    (front.push entry ++ back).modify front.size f = front.push (f entry) ++ back := by
  apply Array.ext_getElem?
  intro i
  rw [Array.getElem?_modify]
  split
  · next h =>
    subst h
    simp [Array.getElem?_append]
  · next h => simp [Array.getElem?_append, Array.getElem?_push, Ne.symm h]

namespace Builder

variable {builder inside : Builder} {kind : Kind} {field : Option Field} {nodes : Array Node}

/-- The end of a node changes its own entry only. -/
theorem nodes_left (h : inside.nodes = (builder.entered kind field).nodes ++ nodes)
    (elements : List Element) (outer : List OpenNode) :
    (inside.left builder.nodes.size elements outer).nodes =
      builder.nodes.push
        (inside.finished elements.length (builder.newNode kind field)) ++ nodes := by
  simp only [left, h, entered]
  exact modify_push_append _ _ _ _

/-- What was built inside a node is kept when the node ends. -/
theorem keeps_left (inside : Builder) (id : NodeId) (elements : List Element)
    (outer : List OpenNode) :
    Tree.Keeps (id + 1) inside.tables (inside.left id elements outer).tables := by
  refine ⟨?_, fun _ _ hleaf => hleaf, elements.toArray, rfl⟩
  intro other node hid hnode
  change inside.nodes[other]? = some node at hnode
  show (inside.nodes.modify _ _)[other]? = some node
  rw [Array.getElem?_modify, if_neg (by omega), hnode]

/-- A node that ends lists its children. -/
theorem lists_left (h : inside.nodes = (builder.entered kind field).nodes ++ nodes)
    (elements : List Element) (outer : List OpenNode) :
    (inside.left builder.nodes.size elements outer).tables.Lists builder.nodes.size
      (inside.finished elements.length (builder.newNode kind field)) elements := by
  have hentry : (inside.left builder.nodes.size elements outer).tables.nodes[builder.nodes.size]? =
      some (inside.finished elements.length (builder.newNode kind field)) := by
    show (inside.left builder.nodes.size elements outer).nodes[builder.nodes.size]? = _
    rw [nodes_left h, Array.getElem?_append_left (by simp), Array.getElem?_push_size]
  refine ⟨hentry, ?_, ?_⟩
  · simp [finished, tables, left]
  · rw [Tree.elements, Tree.node_eq hentry]
    simp [finished, tables, left, Array.extract_append]

end Builder

namespace Lays

variable {builder after : Builder} {home : NodeId} {a c : Cursor}

/-- A node around what was laid down behind its start. -/
theorem node {kind : Kind} {field : Option Field} {children : List Shape} {elements : List Element}
    {placed : List Leaf} (outer : List OpenNode)
    (h : Lays (builder.entered kind field) after builder.nodes.size children elements placed a c) :
    Lays builder (after.left builder.nodes.size elements outer) home [.node kind field children]
      [.node builder.nodes.size] placed a c := by
  obtain ⟨nodes, hnodes⟩ := h.nodes
  obtain ⟨chs, hchildren⟩ := h.children
  have hentered : (builder.entered kind field).nodes.size = builder.nodes.size + 1 := by
    simp [Builder.entered]
  let closed := after.finished elements.length (builder.newNode kind field)
  have hleft : (after.left builder.nodes.size elements outer).nodes =
      builder.nodes.push closed ++ nodes := Builder.nodes_left hnodes elements outer
  have hsize : (after.left builder.nodes.size elements outer).nodes.size = after.nodes.size := by
    simp [Builder.left]
  have hkeeps := after.keeps_left builder.nodes.size elements outer
  have hlists := Builder.lists_left hnodes elements outer
  have hshown : Shape.Shown (after.left builder.nodes.size elements outer).tables
      builder.nodes.size (.node kind field children) (.node builder.nodes.size) := by
    refine ⟨_, closed, elements, rfl, Nat.le_refl _, hlists, rfl, rfl, ?_⟩
    exact Shape.ShownAll.keeps hkeeps (Nat.le_succ _) (hentered ▸ h.shown)
  refine ⟨h.text, h.offset, ⟨#[closed] ++ nodes, ?_⟩, h.leaves, h.trivia,
    ⟨chs ++ elements.toArray, ?_⟩, ?_, ?_, ?_,
    h.reads, ?_, ?_⟩
  · rw [hleft, Array.push_eq_append, Array.append_assoc]
  · simp [Builder.left, hchildren, Builder.entered]
  · exact ⟨_, [], rfl, hshown, rfl⟩
  · have hkinds := h.kinds
    simp only [hnodes] at hkinds
    rw [hleft]
    simpa [Shape.kindsAll, Shape.kinds, closed, Builder.finished, Builder.newNode,
      Builder.entered] using hkinds
  · simpa [Shape.tokensAll, Shape.tokens] using h.tokens
  · intro holds hall id hge hlt
    obtain ⟨⟨hholds, hall⟩, -⟩ := hall
    rcases Nat.eq_or_lt_of_le hge with rfl | hgt
    · exact ⟨kind, field, children, hholds, hshown⟩
    · obtain ⟨kind', field', children', hholds', hshown'⟩ :=
        h.covered holds hall id (by rw [hentered]; exact hgt) (by rw [← hsize]; exact hlt)
      rw [hentered] at hshown'
      exact ⟨kind', field', children', hholds', hshown'.keeps hkeeps (Nat.le_succ _)⟩
  · intro id leaf hge hleaf
    refine Or.inr ?_
    rcases h.housed id leaf hge hleaf with ⟨hp, hmem⟩ | ⟨hp, node, es, hes, hmem⟩
    · rw [hp]
      exact ⟨Nat.le_refl _, closed, elements, hlists, hmem⟩
    · rw [hentered] at hp
      exact ⟨Nat.le_of_succ_le hp, node, es, hes.keeps hkeeps hp, hmem⟩

end Lays

namespace Builder

theorem run_cons (builder : Builder) (step : BuildStep) (rest : List BuildStep) :
    builder.run (step :: rest) = (do (← builder.step step).run rest) := by
  simp [run, List.foldlM_cons]

theorem run_append (builder : Builder) (xs ys : List BuildStep) :
    builder.run (xs ++ ys) = (do (← builder.run xs).run ys) := by
  simp [run, List.foldlM_append]

variable {builder : Builder} {a c : Cursor}

/-- A node is laid down if its children can be. -/
theorem lays_node (h : builder.opened ≠ [] ∨ builder.nodes.size = 0) (home : NodeId)
    {kind : Kind} {field : Option Field} {children : List Shape}
    (hc : ∃ after elements placed,
      (builder.entered kind field).run (Shape.stepsAll children) = .ok after ∧
      after.opened = ⟨builder.nodes.size, elements.reverse⟩ ::
        addChild builder.opened (.node builder.nodes.size) ∧
      Lays (builder.entered kind field) after builder.nodes.size children elements placed a c) :
    ∃ after placed, builder.run (Shape.node kind field children).steps = .ok after ∧
      after.opened = addChild builder.opened (.node builder.nodes.size) ∧
      Lays builder after home [.node kind field children]
        [.node builder.nodes.size] placed a c := by
  obtain ⟨inside, elements, placed, hrun, hopened, hlays⟩ := hc
  refine ⟨_, placed, ?_, rfl, hlays.node _⟩
  rw [Shape.steps, run_cons, step_start h]
  show (builder.entered kind field).run _ = _
  rw [run_append, hrun]
  show inside.run [.finish] = _
  rw [run_cons, step_finish hopened]
  rfl

mutual

/-- A shape whose tokens lie side by side is laid down. -/
theorem lays_shape : ∀ (shape : Shape) {builder : Builder} {a c : Cursor} {inner : OpenNode}
    {outer : List OpenNode}, builder.opened = inner :: outer → Tiled a shape.tokens c →
    builder.offset = a.offset → a.Within builder.text →
    builder.text.utf8ByteSize < UInt32.size →
    ∃ after element placed, builder.run shape.steps = .ok after ∧
      after.opened = addChild builder.opened element ∧
      Lays builder after inner.id [shape] [element] placed a c
  | .leaf token field, builder, a, c, inner, outer, hopen, ht, ho, hw, hsize => by
    rw [Shape.tokens] at ht
    cases ht with
    | cons hfirst hrest =>
      cases hrest
      obtain ⟨after, placed, hstep, hopened, hlays⟩ := Lays.leaf hfirst hopen ho hw hsize field
      refine ⟨after, _, [placed], ?_, hopened, hlays⟩
      rw [Shape.steps, run_cons, hstep]
      rfl
  | .node kind field children, builder, a, c, inner, outer, hopen, ht, ho, hw, hsize => by
    rw [Shape.tokens] at ht
    obtain ⟨after, elements, placed, hrun, hopened, hlays⟩ :=
      lays_shapes children (builder.entered kind field) rfl ht ho hw hsize
    obtain ⟨after, placed, hrun, hopened, hlays⟩ :=
      lays_node (Or.inl (by simp [hopen])) inner.id
        ⟨after, elements, placed, hrun, by simpa using hopened, hlays⟩
    exact ⟨after, _, placed, hrun, hopened, hlays⟩

/-- Shapes whose tokens lie side by side are laid down. -/
theorem lays_shapes : ∀ (shapes : List Shape) (builder : Builder) {a c : Cursor} {inner : OpenNode}
    {outer : List OpenNode}, builder.opened = inner :: outer → Tiled a (Shape.tokensAll shapes) c →
    builder.offset = a.offset → a.Within builder.text →
    builder.text.utf8ByteSize < UInt32.size →
    ∃ after elements placed, builder.run (Shape.stepsAll shapes) = .ok after ∧
      after.opened = ⟨inner.id, elements.reverse ++ inner.children⟩ :: outer ∧
      Lays builder after inner.id shapes elements placed a c
  | [], builder, a, c, inner, outer, hopen, ht, ho, _, _ => by
    rw [Shape.tokensAll_nil] at ht
    cases ht
    exact ⟨builder, [], [], rfl, hopen, Lays.nil builder inner.id ho⟩
  | shape :: rest, builder, a, c, inner, outer, hopen, ht, ho, hw, hsize => by
    rw [Shape.tokensAll] at ht
    obtain ⟨b, hfirst, hrest⟩ := ht.split
    obtain ⟨middle, element, placed, hrun, hopened, hlays⟩ :=
      lays_shape shape hopen hfirst ho hw hsize
    obtain ⟨chars, hpasses⟩ := hfirst.passes
    rw [hopen, addChild] at hopened
    obtain ⟨after, elements, placed', hrun', hopened', hlays'⟩ :=
      lays_shapes rest middle hopened hrest hlays.offset
        (by rw [hlays.text]; exact hw.passes hpasses) (by rw [hlays.text]; exact hsize)
    refine ⟨after, [element] ++ elements, placed ++ placed', ?_, ?_, hlays.append hlays'⟩
    · rw [Shape.stepsAll, run_append, hrun]
      exact hrun'
    · simpa using hopened'

end

end Builder

namespace Builder

theorem layTrivia_text (builder : Builder) (pieces : List Piece) :
    (builder.layTrivia pieces).1.text = builder.text := by
  unfold layTrivia
  induction pieces generalizing builder with
  | nil => rfl
  | cons piece rest ih => exact ih _

/-- A step keeps the text, and lays tokens down within the offsets of 32 bits. -/
theorem step_keeps {builder after : Builder} {step : BuildStep}
    (h : builder.step step = .ok after) :
    after.text = builder.text ∧
      (builder.offset < UInt32.size → after.offset < UInt32.size) := by
  cases step with
  | start kind field =>
    simp only [Builder.step, start] at h
    split at h
    · cases h
    · obtain rfl := Except.ok.inj h
      exact ⟨rfl, id⟩
  | token leading kind size trailing field =>
    simp only [Builder.step, token] at h
    split at h
    · cases h
    split at h
    · split at h
      · cases h
      · next hlt =>
        obtain rfl := Except.ok.inj h
        refine ⟨?_, fun _ => Nat.not_le.mp hlt⟩
        simp only [layTrivia_text]
    · cases h
  | finish =>
    simp only [Builder.step, finishNode] at h
    split at h
    · cases h
    · obtain rfl := Except.ok.inj h
      exact ⟨rfl, id⟩

/-- Building keeps the text, and lays no more than 32 bits can count. -/
theorem run_keeps {builder after : Builder} {steps : List BuildStep}
    (h : builder.run steps = .ok after) :
    after.text = builder.text ∧
      (builder.offset < UInt32.size → after.offset < UInt32.size) := by
  induction steps generalizing builder with
  | nil =>
    obtain rfl := Except.ok.inj h
    exact ⟨rfl, id⟩
  | cons step rest ih =>
    rw [run_cons] at h
    cases hs : builder.step step with
    | error fault =>
      rw [hs] at h
      cases h
    | ok next =>
      rw [hs] at h
      obtain ⟨htext, hoffset⟩ := step_keeps hs
      obtain ⟨htext', hoffset'⟩ := ih h
      exact ⟨htext'.trans htext, fun ho => hoffset' (hoffset ho)⟩

end Builder

/-- A tree holds the tables that its steps have built, with every node finished and the text
covered. -/
theorem Tree.ends_of_assemble {text : String} {steps : List BuildStep} {tree : Tree}
    (h : Tree.assemble text steps = .ok tree) :
    ∃ after, (Builder.empty text).run steps = .ok after ∧ after.opened = [] ∧
      after.nodes ≠ #[] ∧ after.offset = after.text.utf8ByteSize ∧ tree = after.tables := by
  unfold Tree.assemble at h
  cases hr : (Builder.empty text).run steps with
  | error fault =>
    rw [hr] at h
    cases h
  | ok after =>
    rw [hr] at h
    change after.finish = .ok tree at h
    unfold Builder.finish at h
    split at h
    · cases h
    split at h
    · cases h
    split at h
    · cases h
    next hclosed hnodes hcovered =>
      exact ⟨after, rfl, by simpa [Builder.isClosed] using hclosed, by simpa using hnodes,
        by simpa using hcovered, (Except.ok.inj h).symm⟩

/-- A tree is built if it can be put together and all of its numbers have 32 bits. -/
theorem Tree.build_eq_ok_iff {text : String} {steps : List BuildStep} {tree : Tree} :
    Tree.build text steps = .ok tree ↔
      Tree.assemble text steps = .ok tree ∧ tree.isCompact = true := by
  rw [Tree.build]
  cases ha : Tree.assemble text steps with
  | error fault => exact ⟨nofun, nofun⟩
  | ok assembled =>
    show assembled.compact = .ok tree ↔ _
    rw [Tree.compact]
    constructor
    · intro h
      split at h
      · next hcompact =>
        obtain rfl := Except.ok.inj h
        exact ⟨rfl, hcompact⟩
      · cases h
    · rintro ⟨hsame, hcompact⟩
      obtain rfl := Except.ok.inj hsame
      rw [if_pos hcompact]

theorem Tree.isCompact_iff {tree : Tree} :
    tree.isCompact = true ↔ ∀ number ∈ tree.numbers, number < UInt32.size := by
  simp [isCompact]

theorem Tree.assemble_of_build {text : String} {steps : List BuildStep} {tree : Tree}
    (h : Tree.build text steps = .ok tree) : Tree.assemble text steps = .ok tree :=
  (Tree.build_eq_ok_iff.mp h).1

/-- Only texts with offsets of 32 bits have trees. -/
theorem Tree.size_lt_of_assemble {text : String} {steps : List BuildStep} {tree : Tree}
    (h : Tree.assemble text steps = .ok tree) : text.utf8ByteSize < UInt32.size := by
  obtain ⟨after, hrun, -, -, hend, -⟩ := Tree.ends_of_assemble h
  obtain ⟨htext, hoffset⟩ := Builder.run_keeps hrun
  have hsize : after.text.utf8ByteSize < UInt32.size :=
    hend ▸ hoffset (show 0 < UInt32.size by decide)
  rwa [htext] at hsize

/-- A tree shows a shape from its root on, and nothing else: its nodes are those of the shape in
order, its leaves are the tokens of the shape in order, and every leaf is among the children of its
parent. -/
structure Tree.Draws (tree : Tree) (shape : Shape) : Prop where
  shown : shape.Shown tree 0 (.node Tree.root)
  kinds : tree.nodes.toList.map (·.kind) = shape.kinds
  tokens : tree.leaves.toList.map Leaf.place = shape.tokens.map Token.place
  reads : ∃ parts, (List.range tree.leafCount).map
    (fun id => (tree.leafSpan id).read? tree.text) = parts.map some ∧ String.join parts = tree.text
  readable : tree.isReadable = true
  covered : ∀ holds, shape.All holds → ∀ id < tree.nodeCount, ∃ kind field children,
    holds kind children ∧ Shape.Shown tree 0 (.node kind field children) (.node id)
  housed : ∀ (id : TokenId) (leaf : Leaf), tree.leaves[id]? = some leaf →
    ∃ node elements, tree.Lists leaf.parent node elements ∧ .token id ∈ elements

theorem Tiled.readable {text : String} {a b : Cursor} {tokens : List Token} (h : Tiled a tokens b)
    (hw : a.Within text) : ∀ token ∈ tokens, (token.span.read? text).isSome = true := by
  induction h with
  | nil => simp
  | cons first rest ih =>
    obtain ⟨chars, hpasses⟩ := first.passes
    intro token ht
    rcases List.mem_cons.mp ht with rfl | ht
    · rw [first.read? hw]
      rfl
    · exact ih (hw.passes hpasses) token ht

/-- The steps of a node whose tokens cover a text build a tree that shows the node. -/
theorem Tree.assemble_node {text : String} {kind : Kind} {field : Option Field}
    {children : List Shape} {stop : Cursor}
    (h : Tiled (Cursor.ofText text) (Shape.tokensAll children) stop) (hstop : stop.rest = [])
    (hsize : text.utf8ByteSize < UInt32.size) :
    ∃ tree, Tree.assemble text (Shape.node kind field children).steps = .ok tree ∧
      tree.text = text ∧ tree.Draws (.node kind field children) := by
  let builder := Builder.empty text
  have hinside := Builder.lays_shapes children (builder.entered kind field) rfl h rfl
    (Cursor.within_ofText text) hsize
  obtain ⟨after, elements, placed, hrun, hopened, hlays⟩ := hinside
  obtain ⟨after, placed, hrun, hopened, hlays⟩ :=
    Builder.lays_node (Or.inr rfl) Tree.root
      ⟨after, elements, placed, hrun, by simpa using hopened, hlays⟩
  -- from here on the builder started empty, so what it has laid is all there is in the tables
  obtain ⟨trivia, htrivia, hreadable⟩ := hlays.trivia
  have hleaves : after.leaves = placed.toArray := by
    simpa [builder, Builder.empty] using hlays.leaves
  have hnodes : after.nodes ≠ #[] := by
    intro hempty
    simpa [hempty, Shape.kindsAll, Shape.kinds] using hlays.kinds
  obtain ⟨chars, hpasses⟩ := h.passes
  -- the tokens cover the text, so the builder has come to its end
  have hoffset : after.offset = text.utf8ByteSize := by
    have := (Cursor.Within.passes (Cursor.within_ofText text) hpasses).offset_add
    simpa [hlays.offset, hstop] using this
  have hchars : String.ofList chars = text := by
    have := hpasses.1
    rw [hstop, List.append_nil] at this
    rw [← this]
    exact String.ofList_toList
  have htokens : placed.map Leaf.place = (Shape.tokensAll children).map Token.place := by
    simpa [Shape.tokensAll, Shape.tokens] using hlays.tokens
  have htext : after.tables.text = text := hlays.text
  refine ⟨after.tables, ?_, htext, ?_, ?_, ?_, ?_, ?_, ?_, ?_⟩
  · have hfinish : after.finish = .ok after.tables := by
      have hclosed : after.isClosed = true := by
        rw [Builder.isClosed, hopened]
        rfl
      have hoffset' : after.offset = after.text.utf8ByteSize := by rw [hoffset, hlays.text]; rfl
      simp [Builder.finish, hclosed, hnodes, hoffset', Builder.tables]
    rw [Tree.assemble, hrun]
    exact hfinish
  · obtain ⟨element, more, helements, hshown, -⟩ := hlays.shown
    obtain ⟨rfl, -⟩ := List.cons.inj helements
    exact hshown
  · show after.nodes.toList.map (·.kind) = _
    simpa [Shape.kindsAll, builder, Builder.empty] using hlays.kinds
  · rw [Shape.tokens, ← htokens]
    simp [Builder.tables, hleaves]
  · obtain ⟨chars', parts, hpasses', hparts, hjoin⟩ := hlays.reads #[]
    have hchars' : chars' = chars := List.append_cancel_right (hpasses'.1.symm.trans hpasses.1)
    refine ⟨parts, ?_, by rw [hjoin, hchars', hchars, htext]⟩
    rw [← hparts]
    apply List.ext_getElem
    · simp [Tree.leafCount, Builder.tables, hleaves]
    · intro i hi hi'
      have hlt : i < placed.length := by simpa using hi'
      have hleaf : after.tables.leaf i = placed[i] := by
        simp [Tree.leaf, Builder.tables, hleaves, Array.getD, hlt]
      have htrivia : after.tables.trivia = after.trivia := rfl
      have hbuilder : builder.text = text := rfl
      simp [Tree.leafSpan_eq, hleaf, htext, htrivia, hbuilder]
  · simp only [Tree.isReadable, Bool.and_eq_true, Array.all_eq_true_iff_forall_mem]
    refine ⟨?_, ?_⟩
    · intro leaf hleaf
      have hplace : leaf.place ∈ (Shape.tokensAll children).map Token.place := by
        rw [← htokens]
        exact List.mem_map_of_mem (by simpa [Builder.tables, hleaves] using hleaf)
      obtain ⟨token, htoken, heq⟩ := List.mem_map.mp hplace
      obtain ⟨-, hspan⟩ := Prod.mk.inj heq
      rw [← hspan, htext]
      exact h.readable (Cursor.within_ofText text) token htoken
    · intro entry hentry
      rw [htext]
      exact hreadable entry
        (by simpa [Builder.tables, htrivia, builder, Builder.empty] using hentry)
  · intro holds hall id hid
    exact hlays.covered holds ⟨hall, trivial⟩ id (Nat.zero_le _) hid
  · intro id leaf hleaf
    rcases hlays.housed id leaf (Nat.zero_le _) hleaf with ⟨-, hmem⟩ | ⟨-, hlists⟩
    · simp at hmem
    · exact hlists

end ScriptTree

import Mathlib.Algebra.GroupWithZero.Nat
import ScriptTree.Proofs.Tree.Built

/-!
Where the parts of a tree lie. A tree that is built from a shape lays the shape down without gaps:
the offsets of tokens, layout and nodes are sums of the sizes before them, and the tokens of a node
are numbered one after the other.
-/

namespace ScriptTree

namespace Piece

theorem totalSize_cons (piece : Piece) (pieces : List Piece) :
    totalSize (piece :: pieces) = piece.size + totalSize pieces := by
  have hfold (total : Nat) : pieces.foldl (fun total piece => total + piece.size) total =
      total + totalSize pieces := by
    induction pieces generalizing total with
    | nil => rfl
    | cons first rest ih =>
      simp only [totalSize, List.foldl_cons]
      rw [ih, ih (0 + first.size)]
      omega
  simp only [totalSize, List.foldl_cons] at hfold ⊢
  rw [hfold]
  omega

end Piece

def Token.width (token : Token) : Nat :=
  Piece.totalSize token.leading + token.span.size + Piece.totalSize token.trailing

def widthOf (tokens : List Token) : Nat :=
  (tokens.map Token.width).sum

@[simp] theorem widthOf_nil : widthOf [] = 0 :=
  rfl

@[simp] theorem widthOf_append (xs ys : List Token) :
    widthOf (xs ++ ys) = widthOf xs + widthOf ys := by
  simp [widthOf]

theorem widthOf_singleton (token : Token) : widthOf [token] = token.width := by
  simp [widthOf]

/-- Layout takes the bytes between its ends. -/
theorem Laid.offset_eq {a b : Cursor} {pieces : List Piece} (h : Laid a pieces b) :
    b.offset = a.offset + Piece.totalSize pieces := by
  induction h with
  | nil => rfl
  | cons hpasses _ hsize _ ih =>
    rw [ih, hpasses.2, Piece.totalSize_cons, hsize]
    omega

/-- A token takes the bytes between its ends. -/
theorem Token.Fills.offset_eq {token : Token} {a b : Cursor} (h : token.Fills a b) :
    b.offset = a.offset + token.width := by
  obtain ⟨first, last, hleading, hpasses, hspan, htrailing⟩ := h
  have hsize : token.span.size = last.offset - first.offset := by rw [hspan, Span.size]
  have hle := hpasses.offset_le
  rw [htrailing.offset_eq, Token.width, hsize]
  have hfirst := hleading.offset_eq
  omega

/-- So do tokens that lie side by side. -/
theorem Tiled.offset_eq {a b : Cursor} {tokens : List Token} (h : Tiled a tokens b) :
    b.offset = a.offset + widthOf tokens := by
  induction h with
  | nil => rfl
  | cons hfills _ ih =>
    rw [ih, hfills.offset_eq, widthOf, widthOf, List.map_cons, List.sum_cons, Nat.add_assoc]

def placesFrom (offset : Nat) : List Token → List (Kind × Span)
  | [] => []
  | token :: rest =>
    (token.kind, Span.sized (offset + Piece.totalSize token.leading) token.span.size) ::
      placesFrom (offset + token.width) rest

theorem map_fst_placesFrom (offset : Nat) (tokens : List Token) :
    (placesFrom offset tokens).map Prod.fst = tokens.map Token.kind := by
  induction tokens generalizing offset with
  | nil => rfl
  | cons token rest ih => simp [placesFrom, ih]

theorem placesFrom_append (offset : Nat) (xs ys : List Token) :
    placesFrom offset (xs ++ ys) =
      placesFrom offset xs ++ placesFrom (offset + widthOf xs) ys := by
  induction xs generalizing offset with
  | nil => simp [placesFrom]
  | cons token rest ih =>
    simp [placesFrom, ih, widthOf, Nat.add_assoc]

namespace Tree

def HasLayout (tree : Tree) (run : Run) (entries : List TriviaEntry) : Prop :=
  run.positions.map (tree.trivia[·]?) = entries.map some

structure Extends (base : Nat) (tree tree' : Tree) : Prop extends Keeps base tree tree' where
  trivia : ∃ more, tree'.trivia = tree.trivia ++ more

theorem Extends.refl (base : Nat) (tree : Tree) : Extends base tree tree :=
  ⟨⟨fun _ _ _ h => h, fun _ _ h => h, #[], by simp⟩, #[], by simp⟩

theorem Extends.mono {base base' : Nat} {tree tree' : Tree} (h : Extends base tree tree')
    (hb : base ≤ base') : Extends base' tree tree' :=
  ⟨⟨fun id node hid => h.nodes id node (Nat.le_trans hb hid), h.leaves, h.children⟩, h.trivia⟩

theorem Extends.trans {base : Nat} {tree tree' tree'' : Tree} (h : Extends base tree tree')
    (h' : Extends base tree' tree'') : Extends base tree tree'' := by
  obtain ⟨children, hchildren⟩ := h.children
  obtain ⟨children', hchildren'⟩ := h'.children
  obtain ⟨trivia, htrivia⟩ := h.trivia
  obtain ⟨trivia', htrivia'⟩ := h'.trivia
  refine ⟨⟨fun id node hid hnode => h'.nodes id node hid (h.nodes id node hid hnode),
    fun id leaf hleaf => h'.leaves id leaf (h.leaves id leaf hleaf), children ++ children', ?_⟩,
    trivia ++ trivia', ?_⟩
  · rw [hchildren', hchildren, Array.append_assoc]
  · rw [htrivia', htrivia, Array.append_assoc]

theorem HasLayout.grow {tree tree' : Tree} {base : Nat} {run : Run} {entries : List TriviaEntry}
    (h : tree.HasLayout run entries) (he : Extends base tree tree') :
    tree'.HasLayout run entries := by
  obtain ⟨more, hmore⟩ := he.trivia
  rw [HasLayout, ← h]
  apply List.map_congr_left
  intro position hmem
  -- every position of the run is in the table already, since an entry is found there
  have hsome : tree.trivia[position]? ∈ entries.map some := by
    rw [← h]
    exact List.mem_map_of_mem hmem
  obtain ⟨entry, -, hentry⟩ := List.mem_map.mp hsome
  have hlt : position < tree.trivia.size := (Array.getElem?_eq_some_iff.mp hentry.symm).1
  rw [hmore, Array.getElem?_append_left hlt]

theorem HasLayout.entries {tree : Tree} {run : Run} {entries : List TriviaEntry}
    (h : tree.HasLayout run entries) : run.positions.map tree.triviaEntry = entries := by
  have hget := congrArg (List.map fun entry => Option.getD entry default) h
  have hentry : tree.triviaEntry = fun position => (tree.trivia[position]?).getD default :=
    funext fun position => Array.getD_eq_getD_getElem?
  rw [hentry]
  simpa [Function.comp_def] using hget

end Tree

namespace Shape

mutual

/-- An element of a tree stands for a shape that is laid down from an offset on, its tokens being
numbered from `first` on. All nodes of the shape come from `base` on. -/
def Lies (tree : Tree) (base : Nat) : Shape → Nat → TokenId → Element → Prop
  | .leaf token field, offset, first, element =>
    element = .token first ∧ ∃ leaf, tree.leaves[first]? = some leaf ∧ leaf.kind = token.kind ∧
      leaf.field = field ∧
      leaf.span = Span.sized (offset + Piece.totalSize token.leading) token.span.size ∧
      tree.HasLayout leaf.leading (entriesFrom offset token.leading) ∧
      tree.HasLayout leaf.trailing
        (entriesFrom (offset + Piece.totalSize token.leading + token.span.size) token.trailing)
  | .node kind field children, offset, first, element =>
    ∃ id node elements, element = .node id ∧ base ≤ id ∧ tree.Lists id node elements ∧
      node.kind = kind ∧ node.field = field ∧
      node.span = Span.sized offset (widthOf (tokensAll children)) ∧
      node.tokens = ⟨first, (tokensAll children).length⟩ ∧
      LiesAll tree base children offset first elements

def LiesAll (tree : Tree) (base : Nat) : List Shape → Nat → TokenId → List Element → Prop
  | [], _, _, elements => elements = []
  | shape :: rest, offset, first, elements =>
    ∃ element more, elements = element :: more ∧ shape.Lies tree base offset first element ∧
      LiesAll tree base rest (offset + widthOf shape.tokens) (first + shape.tokens.length) more

end

mutual

theorem Lies.grow {tree tree' : Tree} {base base' : Nat} (he : Tree.Extends base tree tree')
    (hb : base' ≤ base) : ∀ {shape : Shape} {offset : Nat} {first : TokenId} {element : Element},
    shape.Lies tree base offset first element → shape.Lies tree' base' offset first element
  | .leaf token field, offset, first, element, h => by
    obtain ⟨rfl, leaf, hleaf, hkind, hfield, hspan, hleading, htrailing⟩ := h
    exact ⟨rfl, leaf, he.leaves first leaf hleaf, hkind, hfield, hspan, hleading.grow he,
      htrailing.grow he⟩
  | .node kind field children, offset, first, element, h => by
    obtain ⟨id, node, elements, rfl, hid, hlists, hkind, hfield, hspan, htokens, hall⟩ := h
    exact ⟨id, node, elements, rfl, Nat.le_trans hb hid, hlists.keeps he.toKeeps hid, hkind, hfield,
      hspan, htokens, LiesAll.grow he hb hall⟩

theorem LiesAll.grow {tree tree' : Tree} {base base' : Nat} (he : Tree.Extends base tree tree')
    (hb : base' ≤ base) : ∀ {shapes : List Shape} {offset : Nat} {first : TokenId}
    {elements : List Element}, LiesAll tree base shapes offset first elements →
    LiesAll tree' base' shapes offset first elements
  | [], offset, first, elements, h => by
    rw [LiesAll] at h ⊢
    exact h
  | shape :: rest, offset, first, elements, h => by
    rw [LiesAll] at h ⊢
    obtain ⟨element, more, rfl, hshape, hrest⟩ := h
    exact ⟨element, more, rfl, hshape.grow he hb, LiesAll.grow he hb hrest⟩

end

/-- Shapes that lie one behind the other lie side by side. -/
theorem liesAll_append {tree : Tree} {base : Nat} {xs ys : List Shape} {offset : Nat}
    {first : TokenId} {elements elements' : List Element}
    (h : LiesAll tree base xs offset first elements)
    (h' : LiesAll tree base ys (offset + widthOf (tokensAll xs))
      (first + (tokensAll xs).length) elements') :
    LiesAll tree base (xs ++ ys) offset first (elements ++ elements') := by
  induction xs generalizing offset first elements with
  | nil =>
    rw [LiesAll] at h
    simpa [h] using h'
  | cons shape rest ih =>
    rw [LiesAll] at h
    obtain ⟨element, more, rfl, hshape, hrest⟩ := h
    rw [List.cons_append, LiesAll]
    refine ⟨element, more ++ elements', rfl, hshape, ih hrest ?_⟩
    simpa [tokensAll, Nat.add_assoc] using h'

/-- Shapes that lie side by side can be parted anywhere. -/
theorem LiesAll.split {tree : Tree} {base : Nat} {xs ys : List Shape} {offset : Nat}
    {first : TokenId} {elements : List Element}
    (h : LiesAll tree base (xs ++ ys) offset first elements) :
    ∃ front back, elements = front ++ back ∧ LiesAll tree base xs offset first front ∧
      LiesAll tree base ys (offset + widthOf (tokensAll xs)) (first + (tokensAll xs).length)
        back := by
  induction xs generalizing offset first elements with
  | nil => exact ⟨[], elements, rfl, by rw [LiesAll], by simpa using h⟩
  | cons shape rest ih =>
    rw [List.cons_append, LiesAll] at h
    obtain ⟨element, more, rfl, hshape, hrest⟩ := h
    obtain ⟨front, back, rfl, hfront, hback⟩ := ih hrest
    refine ⟨element :: front, back, rfl, ?_, ?_⟩
    · rw [LiesAll]
      exact ⟨element, front, rfl, hshape, hfront⟩
    · simpa [tokensAll, Nat.add_assoc] using hback

/-- One of the elements stands for one of the shapes, and the elements behind it for those behind.
-/
theorem LiesAll.cut {tree : Tree} {base : Nat} {shapes : List Shape} {offset : Nat}
    {first : TokenId} {before after : List Element} {element : Element}
    (h : LiesAll tree base shapes offset first (before ++ element :: after)) :
    ∃ front shape back, shapes = front ++ shape :: back ∧
      shape.Lies tree base (offset + widthOf (tokensAll front)) (first + (tokensAll front).length)
        element ∧
      LiesAll tree base back (offset + widthOf (tokensAll (front ++ [shape])))
        (first + (tokensAll (front ++ [shape])).length) after := by
  induction shapes generalizing offset first before with
  | nil =>
    rw [LiesAll] at h
    simp at h
  | cons shape rest ih =>
    rw [LiesAll] at h
    obtain ⟨head, more, helements, hshape, hrest⟩ := h
    cases before with
    | nil =>
      obtain ⟨rfl, rfl⟩ := List.cons.inj helements
      exact ⟨[], shape, rest, rfl, by simpa using hshape, by simpa using hrest⟩
    | cons skipped before =>
      obtain ⟨rfl, rfl⟩ := List.cons.inj helements
      obtain ⟨front, inner, back, rfl, hinner, hback⟩ := ih hrest
      refine ⟨shape :: front, inner, back, rfl, ?_, ?_⟩
      · simpa [tokensAll, Nat.add_assoc] using hinner
      · simpa [tokensAll, Nat.add_assoc] using hback

mutual

/-- The tokens of a shape are numbered one after the other. -/
theorem Lies.places {tree : Tree} {base : Nat} : ∀ {shape : Shape} {offset : Nat} {first : TokenId}
    {element : Element}, shape.Lies tree base offset first element →
    (List.range' first shape.tokens.length).map (fun id => (tree.leaf id).place) =
      placesFrom offset shape.tokens
  | .leaf token field, offset, first, element, h => by
    obtain ⟨rfl, leaf, hleaf, hkind, -, hspan, -⟩ := h
    simp [tokens, placesFrom, Tree.leaf_eq hleaf, Leaf.place, hkind, hspan]
  | .node kind field children, offset, first, element, h => by
    obtain ⟨id, node, elements, -, -, -, -, -, -, -, hall⟩ := h
    rw [tokens]
    exact hall.places

/-- The tokens of shapes are numbered one after the other. -/
theorem LiesAll.places {tree : Tree} {base : Nat} : ∀ {shapes : List Shape} {offset : Nat}
    {first : TokenId} {elements : List Element}, LiesAll tree base shapes offset first elements →
    (List.range' first (tokensAll shapes).length).map (fun id => (tree.leaf id).place) =
      placesFrom offset (tokensAll shapes)
  | [], offset, first, elements, h => by simp [placesFrom]
  | shape :: rest, offset, first, elements, h => by
    rw [LiesAll] at h
    obtain ⟨element, more, -, hshape, hrest⟩ := h
    rw [tokensAll, placesFrom_append, ← hshape.places, ← hrest.places, List.length_append,
      ← List.range'_append_1, List.map_append]

end

/-- A node reaches over the tokens of the shape that it stands for. -/
theorem Lies.nodeSpan {tree : Tree} {base : Nat} {shape : Shape} {offset : Nat} {first : TokenId}
    {id : NodeId} (h : shape.Lies tree base offset first (.node id)) :
    tree.nodeSpan id = Span.sized offset (widthOf shape.tokens) := by
  cases shape with
  | leaf token field => cases h.1
  | node kind field children =>
    obtain ⟨id', node, elements, he, -, hlists, -, -, hspan, -⟩ := h
    obtain rfl := Element.node.inj he
    rw [Tree.nodeSpan, Tree.node_eq hlists.entry, hspan, tokens]

/-- The last token below a node is the last one of the shape that it stands for. -/
theorem Lies.getLast {tree : Tree} {base : Nat} {shape : Shape} {offset : Nat} {first : TokenId}
    {id : NodeId} (h : shape.Lies tree base offset first (.node id)) {last : TokenId}
    (hlast : tree.lastToken? id = some last) :
    ∃ token, shape.tokens.getLast? = some token ∧ token.kind = (tree.leaf last).kind := by
  have hplaces := h.places
  cases shape with
  | leaf token field => cases h.1
  | node kind field children =>
    obtain ⟨id', node, elements, he, -, hlists, -, -, -, htokens, -⟩ := h
    obtain rfl := Element.node.inj he
    have hends := congrArg (fun places => (places.map Prod.fst).getLast?) hplaces
    simp only [tokens, map_fst_placesFrom, List.getLast?_map, List.getLast?_range'] at hends
    simp only [Tree.lastToken?, Tree.node_eq hlists.entry, htokens] at hlast
    split at hlast
    · cases hlast
    · next hne =>
      obtain rfl := Option.some.inj hlast
      rw [if_neg hne] at hends
      obtain ⟨token, htoken, hkind⟩ := Option.map_eq_some_iff.mp hends.symm
      exact ⟨token, htoken, hkind⟩

end Shape

namespace Builder

/-- Laying down layout appends its entries. -/
theorem layTrivia_entries (builder : Builder) (pieces : List Piece) :
    builder.layTrivia pieces =
      ({ builder with
          trivia := builder.trivia ++ (entriesFrom builder.offset pieces).toArray
          offset := builder.offset + Piece.totalSize pieces },
        ⟨builder.trivia.size, pieces.length⟩) := by
  unfold layTrivia
  refine Prod.ext ?_ rfl
  dsimp only
  induction pieces generalizing builder with
  | nil => simp [entriesFrom, Piece.totalSize]
  | cons piece rest ih =>
    rw [List.foldl_cons, ih]
    simp [entriesFrom, Piece.totalSize_cons, Nat.add_assoc]

def newLeaf (builder : Builder) (home : NodeId) (leading : List Piece) (kind : Kind) (size : Nat)
    (trailing : List Piece) (field : Option Field) : Leaf :=
  { kind
    field
    parent := home
    span := Span.sized (builder.offset + Piece.totalSize leading) size
    leading := ⟨builder.trivia.size, leading.length⟩
    trailing := ⟨builder.trivia.size + leading.length, trailing.length⟩ }

def laid (builder : Builder) (home : NodeId) (leading : List Piece) (kind : Kind) (size : Nat)
    (trailing : List Piece) (field : Option Field) : Builder :=
  let first := builder.offset + Piece.totalSize leading
  { builder with
    leaves := builder.leaves.push (builder.newLeaf home leading kind size trailing field)
    trivia := builder.trivia ++ (entriesFrom builder.offset leading).toArray ++
      (entriesFrom (first + size) trailing).toArray
    opened := addChild builder.opened (.token builder.leaves.size)
    offset := first + size + Piece.totalSize trailing }

/-- A token is laid down in an open node. -/
theorem eq_laid_of_step {builder after : Builder} {leading trailing : List Piece} {kind : Kind}
    {size : Nat} {field : Option Field}
    (h : builder.step (.token leading kind size trailing field) = .ok after) :
    ∃ inner outer, builder.opened = inner :: outer ∧
      after = builder.laid inner.id leading kind size trailing field := by
  cases hopen : builder.opened with
  | nil =>
    simp only [step, token, hopen] at h
    cases h
  | cons inner outer =>
    refine ⟨inner, outer, rfl, ?_⟩
    simp only [step, token, hopen, layTrivia_entries] at h
    split at h
    · split at h
      · cases h
      · rw [← Except.ok.inj h]
        simp [laid, newLeaf, hopen, Span.sized]
    · cases h

end Builder

/-- What was built inside a node is kept when the node ends, with all layout. -/
theorem Builder.extends_left (inside : Builder) (id : NodeId) (elements : List Element)
    (outer : List OpenNode) :
    Tree.Extends (id + 1) inside.tables (inside.left id elements outer).tables :=
  ⟨inside.keeps_left id elements outer, #[], by simp [tables, left]⟩

/-- Entries that were appended to a table are found where they were put. -/
theorem Tree.hasLayout_of_eq {tree : Tree} {front : Array TriviaEntry} (back : Array TriviaEntry)
    {entries : List TriviaEntry} (h : tree.trivia = front ++ entries.toArray ++ back) {count : Nat}
    (hcount : entries.length = count) : tree.HasLayout ⟨front.size, count⟩ entries := by
  subst hcount
  rw [Tree.HasLayout, h]
  apply List.ext_getElem
  · simp [Run.positions]
  · intro i hi hi'
    have hlt : i < entries.length := by simpa using hi'
    simp [Run.positions, Array.getElem?_append, hlt]

structure Places (builder after : Builder) (shapes : List Shape) (elements : List Element) :
    Prop where
  offset : after.offset = builder.offset + widthOf (Shape.tokensAll shapes)
  count : after.leaves.size = builder.leaves.size + (Shape.tokensAll shapes).length
  nodes : ∃ more, after.nodes = builder.nodes ++ more
  grown : Tree.Extends 0 builder.tables after.tables
  lies : Shape.LiesAll after.tables builder.nodes.size shapes builder.offset builder.leaves.size
    elements
  covered : ∀ holds, Shape.AllOf holds shapes → ∀ id, builder.nodes.size ≤ id →
    id < after.nodes.size → ∃ kind field children front back, holds kind children ∧
      Shape.tokensAll shapes = front ++ Shape.tokensAll children ++ back ∧
      Shape.Lies after.tables builder.nodes.size (.node kind field children)
        (builder.offset + widthOf front) (builder.leaves.size + front.length) (.node id)

namespace Places

variable {builder middle after : Builder}

theorem nil (builder : Builder) : Places builder builder [] [] := by
  refine ⟨rfl, rfl, ⟨#[], by simp⟩, .refl 0 _, ?_, ?_⟩
  · rw [Shape.LiesAll]
  · exact fun _ _ id hle hlt => absurd hlt (Nat.not_lt.mpr hle)

/-- Shapes side by side. -/
theorem append {xs ys : List Shape} {elements elements' : List Element}
    (h : Places builder middle xs elements) (h' : Places middle after ys elements') :
    Places builder after (xs ++ ys) (elements ++ elements') := by
  obtain ⟨nodes, hnodes⟩ := h.nodes
  obtain ⟨nodes', hnodes'⟩ := h'.nodes
  have hle : builder.nodes.size ≤ middle.nodes.size := by
    rw [hnodes, Array.size_append]
    exact Nat.le_add_right _ _
  refine ⟨?_, ?_, ⟨nodes ++ nodes', ?_⟩, h.grown.trans h'.grown, ?_, ?_⟩
  · rw [h'.offset, h.offset, Shape.tokensAll_append, widthOf_append, Nat.add_assoc]
  · rw [h'.count, h.count, Shape.tokensAll_append, List.length_append, Nat.add_assoc]
  · rw [hnodes', hnodes, Array.append_assoc]
  · refine Shape.liesAll_append (h.lies.grow (h'.grown.mono (Nat.zero_le _)) (Nat.le_refl _)) ?_
    rw [← h.offset, ← h.count]
    exact h'.lies.grow (.refl _ _) hle
  · intro holds hall id hge hlt
    obtain ⟨hx, hy⟩ := Shape.allOf_append.mp hall
    by_cases hid : id < middle.nodes.size
    · obtain ⟨kind, field, children, front, back, hholds, htokens, hlies⟩ :=
        h.covered holds hx id hge hid
      refine ⟨kind, field, children, front, back ++ Shape.tokensAll ys, hholds, ?_,
        hlies.grow (h'.grown.mono (Nat.zero_le _)) (Nat.le_refl _)⟩
      rw [Shape.tokensAll_append, htokens, List.append_assoc]
    · obtain ⟨kind, field, children, front, back, hholds, htokens, hlies⟩ :=
        h'.covered holds hy id (Nat.not_lt.mp hid) hlt
      refine ⟨kind, field, children, Shape.tokensAll xs ++ front, back, hholds, ?_, ?_⟩
      · rw [Shape.tokensAll_append, htokens]
        simp
      · rw [h.offset, h.count] at hlies
        simpa [Nat.add_assoc] using hlies.grow (.refl _ _) hle

/-- A token. -/
theorem leaf {inner : OpenNode} {outer : List OpenNode} {token : Token} {field : Option Field}
    (hopen : builder.opened = inner :: outer)
    (h : builder.step (.token token.leading token.kind token.span.size token.trailing field) =
      .ok after) :
    after.opened = Builder.addChild builder.opened (.token builder.leaves.size) ∧
      Places builder after [.leaf token field] [.token builder.leaves.size] := by
  let front := entriesFrom builder.offset token.leading
  let first := builder.offset + Piece.totalSize token.leading
  let back := entriesFrom (first + token.span.size) token.trailing
  let placed :=
    builder.newLeaf inner.id token.leading token.kind token.span.size token.trailing field
  obtain ⟨inner', outer', hopen', hafter⟩ := Builder.eq_laid_of_step h
  obtain ⟨rfl, rfl⟩ := List.cons.inj (hopen.symm.trans hopen')
  subst hafter
  have hsize : builder.trivia.size + token.leading.length =
      (builder.trivia ++ front.toArray).size := by
    simp [front]
  refine ⟨rfl, ?_, ?_, ⟨#[], Array.append_empty.symm⟩, ?_, ?_, ?_⟩
  · rw [Shape.tokensAll_singleton, Shape.tokens, widthOf_singleton, Token.width]
    show first + token.span.size + Piece.totalSize token.trailing = _
    omega
  · simp [Shape.tokens, Builder.laid]
  · refine ⟨⟨fun _ _ _ hnode => hnode, ?_, #[], Array.append_empty.symm⟩, front.toArray ++
      back.toArray, Array.append_assoc⟩
    intro id leaf hleaf
    have hlt : id < builder.leaves.size := (Array.getElem?_eq_some_iff.mp hleaf).1
    show (builder.leaves.push placed)[id]? = some leaf
    rw [Array.getElem?_push_lt hlt, ← hleaf]
    exact (Array.getElem?_eq_getElem hlt).symm
  · rw [Shape.LiesAll]
    refine ⟨_, [], rfl, ?_, by rw [Shape.LiesAll]⟩
    rw [Shape.Lies]
    refine ⟨rfl, placed, Array.getElem?_push_size, rfl, rfl, rfl, ?_, ?_⟩
    · exact Tree.hasLayout_of_eq back.toArray rfl (length_entriesFrom _ _)
    · show Tree.HasLayout _ ⟨builder.trivia.size + token.leading.length, _⟩ _
      rw [hsize]
      exact Tree.hasLayout_of_eq #[] Array.append_empty.symm (length_entriesFrom _ _)
  · exact fun _ _ id hle hlt => absurd hlt (Nat.not_lt.mpr hle)

/-- A node around what was laid down behind its start. -/
theorem node {kind : Kind} {field : Option Field} {children : List Shape} {elements : List Element}
    (outer : List OpenNode) (h : Places (builder.entered kind field) after children elements) :
    Places builder (after.left builder.nodes.size elements outer) [.node kind field children]
      [.node builder.nodes.size] := by
  obtain ⟨nodes, hnodes⟩ := h.nodes
  obtain ⟨chs, hchildren⟩ := h.grown.children
  have hentered : (builder.entered kind field).nodes.size = builder.nodes.size + 1 := by
    simp [Builder.entered]
  let closed := after.finished elements.length (builder.newNode kind field)
  -- ending the node fills in the entry that was made at its start, and leaves the others
  have hleft : (after.left builder.nodes.size elements outer).nodes =
      builder.nodes.push closed ++ nodes := Builder.nodes_left hnodes elements outer
  have hgrown := after.extends_left builder.nodes.size elements outer
  have hlists := Builder.lists_left hnodes elements outer
  have hoffset : after.offset = builder.offset + widthOf (Shape.tokensAll children) := h.offset
  have hcount : after.leaves.size = builder.leaves.size + (Shape.tokensAll children).length :=
    h.count
  have hlies : Shape.Lies (after.left builder.nodes.size elements outer).tables
      builder.nodes.size (.node kind field children) builder.offset builder.leaves.size
      (.node builder.nodes.size) := by
    rw [Shape.Lies]
    refine ⟨_, closed, elements, rfl, Nat.le_refl _, hlists, rfl, rfl, ?_, ?_, ?_⟩
    · show (⟨builder.offset, after.offset⟩ : Span) = _
      rw [hoffset, Span.sized]
    · show (⟨builder.leaves.size, after.leaves.size - builder.leaves.size⟩ : Run) = _
      rw [hcount, Nat.add_sub_cancel_left]
    · exact Shape.LiesAll.grow hgrown (Nat.le_succ _) (hentered ▸ h.lies)
  refine ⟨?_, ?_, ⟨#[closed] ++ nodes, ?_⟩, ?_, ?_, ?_⟩
  · rw [Shape.tokensAll_singleton, Shape.tokens]
    exact hoffset
  · rw [Shape.tokensAll_singleton, Shape.tokens]
    exact hcount
  · rw [hleft, Array.push_eq_append, Array.append_assoc]
  · refine ⟨⟨?_, h.grown.leaves, chs ++ elements.toArray, ?_⟩, h.grown.trivia⟩
    · intro id node _ hnode
      change builder.nodes[id]? = some node at hnode
      have hlt : id < builder.nodes.size := (Array.getElem?_eq_some_iff.mp hnode).1
      show (after.left builder.nodes.size elements outer).nodes[id]? = some node
      rw [hleft, Array.getElem?_append_left (by rw [Array.size_push]; exact Nat.lt_succ_of_lt hlt),
        Array.getElem?_push_lt hlt, ← hnode]
      exact (Array.getElem?_eq_getElem hlt).symm
    · have hchildren' : after.children = builder.children ++ chs := hchildren
      simp [Builder.left, Builder.tables, hchildren']
  · rw [Shape.LiesAll]
    exact ⟨_, [], rfl, hlies, by rw [Shape.LiesAll]⟩
  · intro holds hall id hge hlt
    obtain ⟨⟨hholds, hall⟩, -⟩ := hall
    rcases Nat.eq_or_lt_of_le hge with rfl | hgt
    · exact ⟨kind, field, children, [], [], hholds, by simp [Shape.tokens], by simpa using hlies⟩
    · have hsize : (after.left builder.nodes.size elements outer).nodes.size =
          after.nodes.size := by
        simp [Builder.left]
      obtain ⟨kind', field', children', front, back, hholds', htokens, hlies'⟩ :=
        h.covered holds hall id (by rw [hentered]; exact hgt) (by rw [← hsize]; exact hlt)
      rw [hentered] at hlies'
      refine ⟨kind', field', children', front, back, hholds', ?_,
        hlies'.grow hgrown (Nat.le_succ _)⟩
      rw [Shape.tokensAll_singleton, Shape.tokens, htokens]

end Places

namespace Builder

/-- A run of steps that succeeds can be cut in two. -/
theorem run_append_ok {builder after : Builder} {xs ys : List BuildStep}
    (h : builder.run (xs ++ ys) = .ok after) :
    ∃ middle, builder.run xs = .ok middle ∧ middle.run ys = .ok after := by
  rw [run_append] at h
  cases hx : builder.run xs with
  | error fault =>
    rw [hx] at h
    cases h
  | ok middle =>
    rw [hx] at h
    exact ⟨middle, rfl, h⟩

theorem run_singleton (builder : Builder) (step : BuildStep) :
    builder.run [step] = builder.step step := by
  rw [run_cons]
  cases builder.step step <;> rfl

/-- A node is laid down as its children are. -/
theorem places_node {builder after : Builder} (hopen : builder.opened ≠ [] ∨ builder.nodes.size = 0)
    {kind : Kind} {field : Option Field} {children : List Shape}
    (hchildren : ∀ inside, (builder.entered kind field).run (Shape.stepsAll children) = .ok inside →
      ∃ elements, inside.opened = ⟨builder.nodes.size, elements.reverse⟩ ::
          addChild builder.opened (.node builder.nodes.size) ∧
        Places (builder.entered kind field) inside children elements)
    (h : builder.run (Shape.node kind field children).steps = .ok after) :
    after.opened = addChild builder.opened (.node builder.nodes.size) ∧
      Places builder after [.node kind field children] [.node builder.nodes.size] := by
  rw [Shape.steps, run_cons, step_start hopen] at h
  obtain ⟨inside, hinside, hend⟩ := run_append_ok h
  obtain ⟨elements, hopened, hplaces⟩ := hchildren inside hinside
  rw [run_singleton, step_finish hopened] at hend
  obtain rfl := Except.ok.inj hend
  exact ⟨rfl, hplaces.node _⟩

mutual

/-- A shape that is built is laid down. -/
theorem places_shape : ∀ (shape : Shape) {builder after : Builder} {inner : OpenNode}
    {outer : List OpenNode}, builder.opened = inner :: outer →
    builder.run shape.steps = .ok after →
    ∃ element, after.opened = addChild builder.opened element ∧
      Places builder after [shape] [element]
  | .leaf token field, builder, after, inner, outer, hopen, h => by
    rw [Shape.steps, run_singleton] at h
    exact ⟨_, Places.leaf hopen h⟩
  | .node kind field children, builder, after, inner, outer, hopen, h => by
    refine ⟨_, places_node (Or.inl (by simp [hopen])) (fun inside hinside => ?_) h⟩
    have hentered : (builder.entered kind field).opened =
        ⟨builder.nodes.size, []⟩ :: addChild builder.opened (.node builder.nodes.size) := rfl
    obtain ⟨elements, hopened, hplaces⟩ := places_shapes children hentered hinside
    exact ⟨elements, by simpa using hopened, hplaces⟩

/-- Shapes that are built are laid down. -/
theorem places_shapes : ∀ (shapes : List Shape) {builder after : Builder} {inner : OpenNode}
    {outer : List OpenNode}, builder.opened = inner :: outer →
    builder.run (Shape.stepsAll shapes) = .ok after →
    ∃ elements, after.opened = ⟨inner.id, elements.reverse ++ inner.children⟩ :: outer ∧
      Places builder after shapes elements
  | [], builder, after, inner, outer, hopen, h => by
    rw [Shape.stepsAll_nil] at h
    obtain rfl := Except.ok.inj h
    exact ⟨[], hopen, Places.nil builder⟩
  | shape :: rest, builder, after, inner, outer, hopen, h => by
    rw [Shape.stepsAll] at h
    obtain ⟨middle, hfirst, hrest⟩ := run_append_ok h
    obtain ⟨element, hopened, hplaces⟩ := places_shape shape hopen hfirst
    rw [hopen, addChild] at hopened
    obtain ⟨elements, hopened', hplaces'⟩ := places_shapes rest hopened hrest
    exact ⟨element :: elements, by simpa using hopened', hplaces.append hplaces'⟩

end

end Builder

/-- A tree that is built from a node holds what was laid down for it. -/
theorem Tree.places_of_assemble {text : String} {kind : Kind} {children : List Shape} {tree : Tree}
    (h : Tree.assemble text (Shape.node kind none children).steps = .ok tree) :
    ∃ after : Builder, tree = after.tables ∧
      Places (Builder.empty text) after [.node kind none children] [.node Tree.root] := by
  obtain ⟨after, hrun, -, -, -, htree⟩ := Tree.ends_of_assemble h
  obtain ⟨-, hplaces⟩ := Builder.places_node (Or.inr rfl) (fun inside hinside => by
    have hentered : ((Builder.empty text).entered kind none).opened =
        ⟨(Builder.empty text).nodes.size, []⟩ ::
          Builder.addChild (Builder.empty text).opened
            (.node (Builder.empty text).nodes.size) := rfl
    obtain ⟨elements, hopened, hplaces⟩ := Builder.places_shapes children hentered hinside
    exact ⟨elements, by simpa using hopened, hplaces⟩) hrun
  exact ⟨after, htree, hplaces⟩

/-- A tree that is built from a node lays the node down from the front of the text on. -/
theorem Tree.lies_of_assemble {text : String} {kind : Kind} {children : List Shape} {tree : Tree}
    (h : Tree.assemble text (Shape.node kind none children).steps = .ok tree) :
    Shape.Lies tree 0 (.node kind none children) 0 0 (.node Tree.root) := by
  obtain ⟨after, rfl, hplaces⟩ := places_of_assemble h
  obtain ⟨element, more, helements, hlies, -⟩ := hplaces.lies
  obtain ⟨rfl, -⟩ := List.cons.inj helements
  exact hlies

/-- Every node of a tree stands for a part of the shape that it was built from, and lies where the
tokens of that part do. -/
theorem Tree.covers_of_assemble {text : String} {kind : Kind} {children : List Shape} {tree : Tree}
    (h : Tree.assemble text (Shape.node kind none children).steps = .ok tree)
    {holds : Kind → List Shape → Prop} (hall : (Shape.node kind none children).All holds)
    {id : NodeId} (hid : id < tree.nodeCount) :
    ∃ kind' field below front back, holds kind' below ∧
      Shape.tokensAll children = front ++ Shape.tokensAll below ++ back ∧
      Shape.Lies tree 0 (.node kind' field below) (widthOf front) front.length (.node id) := by
  obtain ⟨after, rfl, hplaces⟩ := places_of_assemble h
  obtain ⟨kind', field, below, front, back, hholds, htokens, hlies⟩ :=
    hplaces.covered holds ⟨hall, trivial⟩ id (Nat.zero_le _) hid
  rw [Shape.tokensAll_singleton, Shape.tokens] at htokens
  have hoffset : (Builder.empty text).offset = 0 := rfl
  have hleaves : (Builder.empty text).leaves.size = 0 := rfl
  rw [hoffset, hleaves, Nat.zero_add, Nat.zero_add] at hlies
  exact ⟨kind', field, below, front, back, hholds, htokens, hlies⟩

end ScriptTree

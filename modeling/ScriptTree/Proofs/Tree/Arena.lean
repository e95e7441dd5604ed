import Mathlib.Algebra.GroupWithZero.Nat
import ScriptTree.Proofs.Tree.Alike

/-!
Where the parts of a shape go. Every part of a shape has its place in each of the tables of the tree
that is built from it: nodes are numbered before what is below them, their children are listed
behind all lists of what is below them, and tokens, layout and bytes are counted from left to right.
Whatever steps build a tree, they are the brackets of such a shape.
-/

namespace ScriptTree

def piecesOf (tokens : List Token) : Nat :=
  (tokens.map fun token => token.leading.length + token.trailing.length).sum

@[simp] theorem piecesOf_append (xs ys : List Token) :
    piecesOf (xs ++ ys) = piecesOf xs + piecesOf ys := by
  simp [piecesOf]

namespace Shape

mutual

def size : Shape → Nat
  | .leaf _ _ => 0
  | .node _ _ children => sizeAll children + 1

def sizeAll : List Shape → Nat
  | [] => 0
  | shape :: rest => shape.size + sizeAll rest

end

mutual

def slots : Shape → Nat
  | .leaf _ _ => 0
  | .node _ _ children => slotsAll children + children.length

def slotsAll : List Shape → Nat
  | [] => 0
  | shape :: rest => shape.slots + slotsAll rest

end

@[simp] theorem sizeAll_append (xs ys : List Shape) :
    sizeAll (xs ++ ys) = sizeAll xs + sizeAll ys := by
  induction xs with
  | nil => simp [sizeAll]
  | cons shape rest ih => simp [sizeAll, ih, Nat.add_assoc]

end Shape

/-- A place in the tables of a tree: the number of nodes, tokens, listed children, pieces of layout
and bytes before it. -/
structure Site where
  node : Nat
  token : Nat
  slot : Nat
  piece : Nat
  offset : Nat
  deriving DecidableEq, Repr, Inhabited

namespace Site

def front : Site :=
  ⟨0, 0, 0, 0, 0⟩

def past (site : Site) (shape : Shape) : Site :=
  { node := site.node + shape.size
    token := site.token + shape.tokens.length
    slot := site.slot + shape.slots
    piece := site.piece + piecesOf shape.tokens
    offset := site.offset + widthOf shape.tokens }

def pastAll (site : Site) (shapes : List Shape) : Site :=
  { node := site.node + Shape.sizeAll shapes
    token := site.token + (Shape.tokensAll shapes).length
    slot := site.slot + Shape.slotsAll shapes
    piece := site.piece + piecesOf (Shape.tokensAll shapes)
    offset := site.offset + widthOf (Shape.tokensAll shapes) }

def inside (site : Site) : Site :=
  { site with node := site.node + 1 }

@[simp] theorem pastAll_nil (site : Site) : site.pastAll [] = site := by
  simp [pastAll, Shape.sizeAll, Shape.slotsAll, piecesOf]

theorem pastAll_cons (site : Site) (shape : Shape) (rest : List Shape) :
    site.pastAll (shape :: rest) = (site.past shape).pastAll rest := by
  simp [pastAll, past, Shape.sizeAll, Shape.slotsAll, Shape.tokensAll, Nat.add_assoc]

theorem pastAll_singleton (site : Site) (shape : Shape) :
    site.pastAll [shape] = site.past shape := by
  rw [pastAll_cons, pastAll_nil]

theorem pastAll_append (site : Site) (xs ys : List Shape) :
    site.pastAll (xs ++ ys) = (site.pastAll xs).pastAll ys := by
  induction xs generalizing site with
  | nil => simp
  | cons shape rest ih => rw [List.cons_append, pastAll_cons, ih, pastAll_cons]

end Site

namespace Shape

/-- The element that stands for a shape at a place. -/
def element (site : Site) : Shape → Element
  | .leaf _ _ => .token site.token
  | .node _ _ _ => .node site.node

def elementsFrom (site : Site) : List Shape → List Element
  | [] => []
  | shape :: rest => shape.element site :: elementsFrom (site.past shape) rest

@[simp] theorem length_elementsFrom (site : Site) (shapes : List Shape) :
    (elementsFrom site shapes).length = shapes.length := by
  induction shapes generalizing site with
  | nil => rfl
  | cons shape rest ih => simp [elementsFrom, ih]

def nodeAt (home : Option NodeId) (site : Site) (kind : Kind) (field : Option Field)
    (children : List Shape) : Node :=
  { kind
    field
    parent := home
    children := ⟨site.slot + slotsAll children, children.length⟩
    tokens := ⟨site.token, (tokensAll children).length⟩
    span := Span.sized site.offset (widthOf (tokensAll children)) }

def leafAt (home : NodeId) (site : Site) (token : Token) (field : Option Field) : Leaf :=
  { kind := token.kind
    field
    parent := home
    span := Span.sized (site.offset + Piece.totalSize token.leading) token.span.size
    leading := ⟨site.piece, token.leading.length⟩
    trailing := ⟨site.piece + token.leading.length, token.trailing.length⟩ }

mutual

def Sits (tree : Tree) (home : Option NodeId) : Shape → Site → Prop
  | .leaf token field, site =>
    ∃ parent, home = some parent ∧
      tree.leaves[site.token]? = some (leafAt parent site token field) ∧
      tree.HasLayout ⟨site.piece, token.leading.length⟩ (entriesFrom site.offset token.leading) ∧
      tree.HasLayout ⟨site.piece + token.leading.length, token.trailing.length⟩
        (entriesFrom (site.offset + Piece.totalSize token.leading + token.span.size) token.trailing)
  | .node kind field children, site =>
    tree.Lists site.node (nodeAt home site kind field children)
      (elementsFrom site.inside children) ∧
      SitsAll tree (some site.node) children site.inside

/-- Shapes side by side have their places in the tables of a tree. -/
def SitsAll (tree : Tree) (home : Option NodeId) : List Shape → Site → Prop
  | [], _ => True
  | shape :: rest, site => shape.Sits tree home site ∧ SitsAll tree home rest (site.past shape)

end

mutual

theorem Sits.grow {tree tree' : Tree} {base : Nat} (he : Tree.Extends base tree tree') :
    ∀ {home : Option NodeId} {shape : Shape} {site : Site}, base ≤ site.node →
    shape.Sits tree home site → shape.Sits tree' home site
  | home, .leaf token field, site, _, h => by
    obtain ⟨parent, hhome, hleaf, hleading, htrailing⟩ := h
    exact ⟨parent, hhome, he.leaves _ _ hleaf, hleading.grow he, htrailing.grow he⟩
  | home, .node kind field children, site, hb, h => by
    obtain ⟨hlists, hall⟩ := h
    exact ⟨hlists.keeps he.toKeeps hb, SitsAll.grow he (Nat.le_succ_of_le hb) hall⟩

theorem SitsAll.grow {tree tree' : Tree} {base : Nat} (he : Tree.Extends base tree tree') :
    ∀ {home : Option NodeId} {shapes : List Shape} {site : Site}, base ≤ site.node →
    SitsAll tree home shapes site → SitsAll tree' home shapes site
  | home, [], site, _, h => by
    rw [SitsAll]
    trivial
  | home, shape :: rest, site, hb, h => by
    rw [SitsAll] at h ⊢
    exact ⟨h.1.grow he hb, SitsAll.grow he (Nat.le_add_right_of_le hb) h.2⟩

end

theorem sitsAll_append {tree : Tree} {home : Option NodeId} {xs ys : List Shape} {site : Site} :
    SitsAll tree home (xs ++ ys) site ↔
      SitsAll tree home xs site ∧ SitsAll tree home ys (site.pastAll xs) := by
  induction xs generalizing site with
  | nil => simp [SitsAll]
  | cons shape rest ih => simp only [List.cons_append, SitsAll, ih, Site.pastAll_cons, and_assoc]

end Shape

namespace Builder

def site (builder : Builder) : Site :=
  { node := builder.nodes.size
    token := builder.leaves.size
    slot := builder.children.size
    piece := builder.trivia.size
    offset := builder.offset }

theorem site_entered (builder : Builder) (kind : Kind) (field : Option Field) :
    (builder.entered kind field).site = builder.site.inside := by
  simp [site, entered, Site.inside]

end Builder

structure Seats (builder after : Builder) (home : Option NodeId) (shapes : List Shape) : Prop where
  site : after.site = builder.site.pastAll shapes
  nodes : ∃ more, after.nodes = builder.nodes ++ more
  grown : Tree.Extends 0 builder.tables after.tables
  sits : Shape.SitsAll after.tables home shapes builder.site

namespace Seats

variable {builder middle after : Builder} {home : Option NodeId}

theorem nil (builder : Builder) (home : Option NodeId) : Seats builder builder home [] := by
  refine ⟨by simp, ⟨#[], by simp⟩, .refl 0 _, ?_⟩
  rw [Shape.SitsAll]
  trivial

/-- Shapes side by side. -/
theorem append {xs ys : List Shape} (h : Seats builder middle home xs)
    (h' : Seats middle after home ys) : Seats builder after home (xs ++ ys) := by
  obtain ⟨nodes, hnodes⟩ := h.nodes
  obtain ⟨nodes', hnodes'⟩ := h'.nodes
  refine ⟨?_, ⟨nodes ++ nodes', ?_⟩, h.grown.trans h'.grown, ?_⟩
  · rw [h'.site, h.site, Site.pastAll_append]
  · rw [hnodes', hnodes, Array.append_assoc]
  · rw [Shape.sitsAll_append, ← h.site]
    exact ⟨h.sits.grow h'.grown (Nat.zero_le _), h'.sits⟩

/-- A token. -/
theorem leaf {inner : OpenNode} {outer : List OpenNode} {token : Token} {field : Option Field}
    (hopen : builder.opened = inner :: outer)
    (h : builder.step (.token token.leading token.kind token.span.size token.trailing field) =
      .ok after) :
    after.opened = Builder.addChild builder.opened (.token builder.leaves.size) ∧
      Seats builder after (some inner.id) [.leaf token field] := by
  obtain ⟨hopened, hplaces⟩ := Places.leaf hopen h
  obtain ⟨inner', outer', hopen', hafter⟩ := Builder.eq_laid_of_step h
  obtain ⟨rfl, rfl⟩ := List.cons.inj (hopen.symm.trans hopen')
  subst hafter
  let front := entriesFrom builder.offset token.leading
  have hsize : builder.trivia.size + token.leading.length =
      (builder.trivia ++ front.toArray).size := by
    simp [front]
  refine ⟨hopened, ?_, hplaces.nodes, hplaces.grown, ?_⟩
  · rw [Site.pastAll_singleton]
    simp [Builder.site, Builder.laid, Site.past, Shape.size, Shape.slots, Shape.tokens, piecesOf,
      widthOf, Token.width, Nat.add_assoc]
  · rw [Shape.SitsAll, Shape.SitsAll]
    refine ⟨⟨inner.id, rfl, Array.getElem?_push_size, ?_, ?_⟩, trivial⟩
    · exact Tree.hasLayout_of_eq ((entriesFrom _ token.trailing).toArray) rfl
        (length_entriesFrom _ _)
    · show Tree.HasLayout _ ⟨builder.trivia.size + token.leading.length, _⟩ _
      rw [hsize]
      exact Tree.hasLayout_of_eq #[] Array.append_empty.symm (length_entriesFrom _ _)

/-- A node around what was built behind its start. -/
theorem node {inside : Builder} {kind : Kind} {field : Option Field} {children : List Shape}
    (hhome : home = builder.opened.head?.map (·.id)) (outer : List OpenNode)
    (h : Seats (builder.entered kind field) inside (some builder.nodes.size) children) :
    Seats builder
      (inside.left builder.nodes.size (Shape.elementsFrom builder.site.inside children) outer) home
      [.node kind field children] := by
  let elements := Shape.elementsFrom builder.site.inside children
  obtain ⟨nodes, hnodes⟩ := h.nodes
  have hleft := Builder.nodes_left hnodes elements outer
  have hgrown := inside.extends_left builder.nodes.size elements outer
  have hlists := Builder.lists_left hnodes elements outer
  have hsite : inside.site = builder.site.inside.pastAll children := by
    rw [h.site, Builder.site_entered]
  have hslot := congrArg Site.slot hsite
  have htoken := congrArg Site.token hsite
  have hoffset := congrArg Site.offset hsite
  have hentry : inside.finished elements.length (builder.newNode kind field) =
      Shape.nodeAt home builder.site kind field children := by
    simp only [Builder.site, Site.inside, Site.pastAll] at hslot htoken hoffset
    simp [Builder.finished, Builder.newNode, Shape.nodeAt, elements, hhome, hslot, htoken, hoffset,
      Builder.site, Span.sized, Span.point]
  obtain ⟨chs, hchildren⟩ := h.grown.children
  refine ⟨?_, ⟨#[inside.finished elements.length (builder.newNode kind field)] ++ nodes, ?_⟩,
    ?_, ?_⟩
  · have hnode := congrArg Site.node hsite
    have hpiece := congrArg Site.piece hsite
    simp only [Builder.site, Site.inside, Site.pastAll] at hslot htoken hoffset hnode hpiece
    rw [Site.pastAll_singleton]
    simp [Builder.site, Builder.left, Site.past, Shape.size, Shape.slots, Shape.tokens, hslot,
      htoken, hoffset, hnode, hpiece, Nat.add_assoc, Nat.add_comm 1]
  · rw [hleft, Array.push_eq_append, Array.append_assoc]
  · refine ⟨⟨?_, h.grown.leaves, chs ++ elements.toArray, ?_⟩, h.grown.trivia⟩
    · intro id node _ hnode
      change builder.nodes[id]? = some node at hnode
      have hlt : id < builder.nodes.size := (Array.getElem?_eq_some_iff.mp hnode).1
      show (inside.left builder.nodes.size elements outer).nodes[id]? = some node
      rw [hleft, Array.getElem?_append_left (by rw [Array.size_push]; exact Nat.lt_succ_of_lt hlt),
        Array.getElem?_push_lt hlt, ← hnode]
      exact (Array.getElem?_eq_getElem hlt).symm
    · have hchildren' : inside.children = builder.children ++ chs := hchildren
      simp [Builder.left, Builder.tables, hchildren', elements]
  · rw [Shape.SitsAll, Shape.SitsAll]
    refine ⟨⟨hentry ▸ hlists, ?_⟩, trivial⟩
    have hsits := h.sits
    rw [Builder.site_entered] at hsits
    exact hsits.grow hgrown (Nat.le_refl _)

end Seats

namespace Builder

/-- A node gets its place as its children do. -/
theorem seats_node {builder after : Builder} (hopen : builder.opened ≠ [] ∨ builder.nodes.size = 0)
    {kind : Kind} {field : Option Field} {children : List Shape}
    (hchildren : ∀ inside, (builder.entered kind field).run (Shape.stepsAll children) = .ok inside →
      inside.opened =
          ⟨builder.nodes.size, (Shape.elementsFrom builder.site.inside children).reverse⟩ ::
            addChild builder.opened (.node builder.nodes.size) ∧
        Seats (builder.entered kind field) inside (some builder.nodes.size) children)
    (h : builder.run (Shape.node kind field children).steps = .ok after) :
    after.opened = addChild builder.opened (.node builder.nodes.size) ∧
      Seats builder after (builder.opened.head?.map (·.id)) [.node kind field children] := by
  rw [Shape.steps, run_cons, step_start hopen] at h
  obtain ⟨inside, hinside, hend⟩ := run_append_ok h
  obtain ⟨hopened, hseats⟩ := hchildren inside hinside
  rw [run_singleton, step_finish hopened] at hend
  obtain rfl := Except.ok.inj hend
  exact ⟨rfl, hseats.node rfl _⟩

mutual

/-- A shape that is built gets its place. -/
theorem seats_shape : ∀ (shape : Shape) {builder after : Builder} {inner : OpenNode}
    {outer : List OpenNode}, builder.opened = inner :: outer →
    builder.run shape.steps = .ok after →
    after.opened = addChild builder.opened (shape.element builder.site) ∧
      Seats builder after (some inner.id) [shape]
  | .leaf token field, builder, after, inner, outer, hopen, h => by
    rw [Shape.steps, run_singleton] at h
    exact Seats.leaf hopen h
  | .node kind field children, builder, after, inner, outer, hopen, h => by
    have hhome : builder.opened.head?.map (·.id) = some inner.id := by rw [hopen]; rfl
    rw [← hhome]
    refine seats_node (Or.inl (by simp [hopen])) (fun inside hinside => ?_) h
    have hentered : (builder.entered kind field).opened =
        ⟨builder.nodes.size, []⟩ :: addChild builder.opened (.node builder.nodes.size) := rfl
    obtain ⟨hopened, hseats⟩ := seats_shapes children hentered hinside
    rw [site_entered] at hopened
    exact ⟨by simpa using hopened, hseats⟩

/-- Shapes that are built get their places. -/
theorem seats_shapes : ∀ (shapes : List Shape) {builder after : Builder} {inner : OpenNode}
    {outer : List OpenNode}, builder.opened = inner :: outer →
    builder.run (Shape.stepsAll shapes) = .ok after →
    after.opened =
        ⟨inner.id, (Shape.elementsFrom builder.site shapes).reverse ++ inner.children⟩ :: outer ∧
      Seats builder after (some inner.id) shapes
  | [], builder, after, inner, outer, hopen, h => by
    rw [Shape.stepsAll_nil] at h
    obtain rfl := Except.ok.inj h
    exact ⟨hopen, Seats.nil builder _⟩
  | shape :: rest, builder, after, inner, outer, hopen, h => by
    rw [Shape.stepsAll] at h
    obtain ⟨middle, hfirst, hrest⟩ := run_append_ok h
    obtain ⟨hopened, hseats⟩ := seats_shape shape hopen hfirst
    rw [hopen, addChild] at hopened
    obtain ⟨hopened', hseats'⟩ := seats_shapes rest hopened hrest
    rw [hseats.site, Site.pastAll_singleton] at hopened'
    exact ⟨by simpa [Shape.elementsFrom] using hopened', hseats.append hseats'⟩

end

end Builder

/-- A node that is built from nothing gets its place at the front. -/
theorem Builder.seats_root {text : String} {kind : Kind} {field : Option Field}
    {children : List Shape} {after : Builder}
    (h : (Builder.empty text).run (Shape.node kind field children).steps = .ok after) :
    after.opened = [] ∧ Seats (Builder.empty text) after none [.node kind field children] := by
  refine seats_node (Or.inr rfl) (fun inside hinside => ?_) h
  obtain ⟨hopened, hseats⟩ :=
    seats_shapes children (rfl : ((Builder.empty text).entered kind field).opened = _) hinside
  rw [site_entered] at hopened
  exact ⟨by simpa using hopened, hseats⟩

def BuildStep.laidToken (leading : List Piece) (kind : Kind) (size : Nat) (trailing : List Piece) :
    Token :=
  { leading, kind, span := Span.sized 0 size, text := "", trailing, error := none }

namespace Builder

theorem length_opened_laid (builder : Builder) (home : NodeId) (leading : List Piece) (kind : Kind)
    (size : Nat) (trailing : List Piece) (field : Option Field) :
    (builder.laid home leading kind size trailing field).opened.length = builder.opened.length := by
  cases hopen : builder.opened <;> simp [laid, addChild, hopen]

/-- Steps that end all open nodes build shapes up to the end of the innermost one. -/
theorem exists_shapes {builder after : Builder} {steps : List BuildStep}
    (hrun : builder.run steps = .ok after) (hopen : builder.opened ≠ [])
    (hend : after.opened = []) :
    ∃ shapes rest, steps = Shape.stepsAll shapes ++ .finish :: rest := by
  induction hlen : steps.length using Nat.strong_induction_on generalizing builder steps with
  | _ count ih =>
    subst hlen
    cases steps with
    | nil =>
      obtain rfl := Except.ok.inj hrun
      exact absurd hend hopen
    | cons step more =>
      rw [← List.singleton_append] at hrun
      obtain ⟨middle, hstep, hmore⟩ := run_append_ok hrun
      rw [run_singleton] at hstep
      cases step with
      | finish => exact ⟨[], more, rfl⟩
      | token leading kind size trailing field =>
        obtain ⟨inner, outer, -, rfl⟩ := eq_laid_of_step hstep
        have hlength := builder.length_opened_laid inner.id leading kind size trailing field
        have hopen' : (builder.laid inner.id leading kind size trailing field).opened ≠ [] := by
          rw [← List.length_pos_iff, hlength, List.length_pos_iff]
          exact hopen
        obtain ⟨shapes, rest, rfl⟩ := ih more.length (Nat.lt_succ_self _) hmore hopen' rfl
        refine ⟨.leaf (BuildStep.laidToken leading kind size trailing) field :: shapes, rest, ?_⟩
        simp [Shape.stepsAll, Shape.steps, BuildStep.laidToken, Span.sized, Span.size]
      | start kind field =>
        obtain rfl := eq_entered_of_step hstep
        -- what follows ends the new node first, and then the one around it
        obtain ⟨children, more', rfl⟩ :=
          ih more.length (Nat.lt_succ_self _) hmore (by simp [entered]) rfl
        obtain ⟨inside, hinside, hmore'⟩ := run_append_ok hmore
        rw [← List.singleton_append] at hmore'
        obtain ⟨behind, hfinish, hbehind⟩ := run_append_ok hmore'
        rw [run_singleton] at hfinish
        obtain ⟨hopened, -⟩ := seats_shapes children (rfl : (builder.entered kind field).opened = _)
          hinside
        rw [step_finish (show inside.opened = ⟨_, (Shape.elementsFrom _ children).reverse⟩ :: _ by
          simpa using hopened)] at hfinish
        obtain rfl := Except.ok.inj hfinish
        have hopen' : addChild builder.opened (.node builder.nodes.size) ≠ [] := by
          cases hcases : builder.opened with
          | nil => exact absurd hcases hopen
          | cons inner outer => simp [addChild]
        obtain ⟨shapes, rest, rfl⟩ :=
          ih more'.length (by simp; omega) hbehind hopen' rfl
        refine ⟨.node kind field children :: shapes, rest, ?_⟩
        simp [Shape.stepsAll, Shape.steps]

end Builder

structure Tree.Houses (tree : Tree) (shape : Shape) : Prop where
  sits : shape.Sits tree none Site.front
  nodes : tree.nodeCount = shape.size
  leaves : tree.leafCount = shape.tokens.length
  text : tree.text.utf8ByteSize = widthOf shape.tokens

/-- Behind the root there is no further step. -/
theorem Builder.exists_error_of_closed {builder : Builder} (hopen : builder.opened = [])
    (hsize : builder.nodes.size ≠ 0) (step : BuildStep) :
    ∃ fault, builder.step step = .error fault := by
  cases step with
  | start kind field => exact ⟨.secondRoot, by simp [Builder.step, start, hopen, hsize]⟩
  | token leading kind size trailing field =>
    exact ⟨.noOpenNode, by simp [Builder.step, token, hopen]⟩
  | finish => exact ⟨.noOpenNode, by simp [Builder.step, finishNode, hopen]⟩

/-- A run from nothing that ends with all nodes finished built one node. -/
theorem Builder.exists_node {text : String} {steps : List BuildStep} {after : Builder}
    (hrun : (Builder.empty text).run steps = .ok after) (hend : after.opened = [])
    (hnodes : after.nodes ≠ #[]) :
    ∃ kind field children, steps = (Shape.node kind field children).steps := by
  cases steps with
  | nil =>
    obtain rfl := Except.ok.inj hrun
    exact absurd rfl hnodes
  | cons step more =>
    rw [← List.singleton_append] at hrun
    obtain ⟨middle, hstep, hmore⟩ := run_append_ok hrun
    rw [run_singleton] at hstep
    cases step with
    | finish => cases hstep
    | token leading kind size trailing field => cases hstep
    | start kind field =>
      obtain rfl := eq_entered_of_step hstep
      obtain ⟨children, rest, rfl⟩ := exists_shapes hmore (by simp [entered]) hend
      refine ⟨kind, field, children, ?_⟩
      have hsteps : BuildStep.start kind field :: (Shape.stepsAll children ++ .finish :: rest) =
          (Shape.node kind field children).steps ++ rest := by
        simp [Shape.steps]
      rw [List.singleton_append, hsteps] at hrun
      obtain ⟨behind, hnode, hrest⟩ := run_append_ok hrun
      obtain ⟨hclosed, hseats⟩ := seats_root hnode
      have hsize : behind.nodes.size ≠ 0 := by
        have hnode := congrArg Site.node hseats.site
        rw [Site.pastAll_singleton] at hnode
        simp only [site, Site.past, Shape.size] at hnode
        rw [hnode]
        exact Nat.succ_ne_zero _
      cases rest with
      | nil => simp [Shape.steps]
      | cons step rest =>
        obtain ⟨fault, hfault⟩ := exists_error_of_closed hclosed hsize step
        rw [run_cons, hfault] at hrest
        cases hrest

/-- The tables of a tree that is built from a node are those of the node. -/
theorem Tree.houses_node {text : String} {kind : Kind} {field : Option Field}
    {children : List Shape} {tree : Tree}
    (h : Tree.assemble text (Shape.node kind field children).steps = .ok tree) :
    tree.Houses (.node kind field children) := by
  obtain ⟨after, hrun, -, -, hcovered, rfl⟩ := Tree.ends_of_assemble h
  obtain ⟨-, hseats⟩ := Builder.seats_root hrun
  have hsite := hseats.site
  rw [Site.pastAll_singleton] at hsite
  refine ⟨hseats.sits.1, ?_, ?_, ?_⟩
  · exact (congrArg Site.node hsite).trans (Nat.zero_add _)
  · exact (congrArg Site.token hsite).trans (Nat.zero_add _)
  · exact hcovered.symm.trans ((congrArg Site.offset hsite).trans (Nat.zero_add _))

/-- Steps that build a tree are the brackets of one node, and the tables of the tree are those of
that node. -/
theorem Tree.houses_of_assemble {text : String} {steps : List BuildStep} {tree : Tree}
    (h : Tree.assemble text steps = .ok tree) :
    ∃ kind field children, steps = (Shape.node kind field children).steps ∧
      tree.Houses (.node kind field children) := by
  obtain ⟨after, hrun, hend, hnodes, -, -⟩ := Tree.ends_of_assemble h
  obtain ⟨kind, field, children, rfl⟩ := Builder.exists_node hrun hend hnodes
  exact ⟨kind, field, children, rfl, Tree.houses_node h⟩

theorem Tree.houses_of_build {text : String} {steps : List BuildStep} {tree : Tree}
    (h : Tree.build text steps = .ok tree) :
    ∃ kind field children, steps = (Shape.node kind field children).steps ∧
      tree.Houses (.node kind field children) :=
  Tree.houses_of_assemble (Tree.assemble_of_build h)

end ScriptTree

import ScriptTree.Proofs.Tree.Arena
import ScriptTree.Tree.Navigate

/-!
The parts of a shape and the elements of its tree. Every element of a tree stands for one part of
the shape that the tree was built from, in the node that stands for the part around it. What the
tables say of an element is then read off its part.
-/

namespace ScriptTree

namespace Tree

def Has (tree : Tree) : Element → Prop
  | .node id => id < tree.nodeCount
  | .token id => id < tree.leafCount

def home? (tree : Tree) : Element → Option NodeId
  | .node id => tree.parent? id
  | .token id => some (tree.leaf id).parent

def tokenRun (tree : Tree) : Element → Run
  | .node id => (tree.node id).tokens
  | .token id => ⟨id, 1⟩

def Precedes (tree : Tree) (element other : Element) : Prop :=
  (tree.tokenRun element).first + (tree.tokenRun element).count ≤ (tree.tokenRun other).first ∧
    ∀ id id', element = .node id → other = .node id' → id < id'

def Abut (tree : Tree) : Nat → List Element → Nat → Prop
  | start, [], stop => start = stop
  | start, element :: rest, stop =>
    (tree.elementSpan element).start = start ∧ start ≤ (tree.elementSpan element).stop ∧
      tree.Abut (tree.elementSpan element).stop rest stop

def reached (tree : Tree) : TokenId → Nat
  | 0 => 0
  | id + 1 => (tree.leafSpan id).stop

end Tree

/-- The first piece of layout starts where the layout starts. -/
theorem start_entriesFrom (offset : Nat) (pieces : List Piece) :
    ((entriesFrom offset pieces).head?.map (·.span.start)).getD (offset + Piece.totalSize pieces) =
      offset := by
  cases pieces <;> rfl

/-- The last piece of layout stops where the layout stops. -/
theorem stop_entriesFrom (offset : Nat) (pieces : List Piece) :
    ((entriesFrom offset pieces).getLast?.map (·.span.stop)).getD offset =
      offset + Piece.totalSize pieces := by
  induction pieces generalizing offset with
  | nil => rfl
  | cons piece rest ih =>
    rw [Piece.totalSize_cons, ← Nat.add_assoc, ← ih, entriesFrom]
    cases rest with
    | nil => rfl
    | cons next more => simp [entriesFrom, List.getLast?_cons]

namespace Site

def Between (site site' : Site) : Element → Prop
  | .node (id : Nat) => site.node ≤ id ∧ id < site'.node
  | .token (id : Nat) => site.token ≤ id ∧ id < site'.token

/-- What lies among two lists of shapes lies among one of them. -/
theorem between_append {site : Site} {xs ys : List Shape} {element : Element}
    (h : site.Between (site.pastAll (xs ++ ys)) element) :
    site.Between (site.pastAll xs) element ∨
      (site.pastAll xs).Between ((site.pastAll xs).pastAll ys) element := by
  rw [pastAll_append] at h
  cases element with
  | node id =>
    by_cases hid : id < (site.pastAll xs).node
    · exact Or.inl ⟨h.1, hid⟩
    · exact Or.inr ⟨Nat.not_lt.mp hid, h.2⟩
  | token id =>
    by_cases hid : id < (site.pastAll xs).token
    · exact Or.inl ⟨h.1, hid⟩
    · exact Or.inr ⟨Nat.not_lt.mp hid, h.2⟩

end Site

namespace Shape

inductive Part (whole : Shape) : Option NodeId → Shape → Site → Prop
  | whole : Part whole none whole Site.front
  | child {home : Option NodeId} {kind : Kind} {field : Option Field} {before after : List Shape}
      {shape : Shape} {site : Site}
      (h : Part whole home (.node kind field (before ++ shape :: after)) site) :
      Part whole (some site.node) shape (site.inside.pastAll before)

/-- The parts of a shape that sits in the tables sit there, too. -/
theorem Part.sits {tree : Tree} {whole shape : Shape} {home : Option NodeId} {site : Site}
    (h : Part whole home shape site) (hw : whole.Sits tree none Site.front) :
    shape.Sits tree home site := by
  induction h with
  | whole => exact hw
  | child _ ih =>
    obtain ⟨-, hall⟩ := ih
    have hrest := (sitsAll_append.mp hall).2
    exact hrest.1

/-- The parts below a node meet what all children of the node meet. -/
theorem Part.all_below {holds : Kind → List Shape → Prop} {whole shape : Shape}
    {home : Option NodeId} {site : Site} (h : Part whole home shape site) (hhome : home ≠ none)
    (hw : ∀ kind field children, whole = .node kind field children → AllOf holds children) :
    shape.All holds := by
  induction h with
  | whole => exact absurd rfl hhome
  | @child home kind field before after shape site hpart ih =>
    have hall : AllOf holds (before ++ shape :: after) := by
      cases home with
      | none =>
        cases hpart
        exact hw _ _ _ rfl
      | some parent => exact (ih (by simp)).2
    exact allOf_iff.mp hall shape (by simp)

mutual

/-- Every element that is numbered within a part stands for a part. -/
theorem Part.exists_of_between {whole : Shape} {element : Element} : ∀ {shape : Shape}
    {home : Option NodeId} {site : Site}, Part whole home shape site →
    site.Between (site.past shape) element →
    ∃ home' shape' site', Part whole home' shape' site' ∧ shape'.element site' = element
  | .leaf token field, home, site, hpart, h => by
    refine ⟨home, .leaf token field, site, hpart, ?_⟩
    cases element with
    | node id =>
      simp only [Site.Between, Site.past, size] at h
      omega
    | token id =>
      simp only [Site.Between, Site.past, tokens, List.length_singleton] at h
      rw [Shape.element, Nat.le_antisymm h.1 (Nat.le_of_lt_succ h.2)]
  | .node kind field children, home, site, hpart, h => by
    by_cases hself : element = .node site.node
    · exact ⟨home, .node kind field children, site, hpart, hself.symm⟩
    · refine Part.exists_of_betweenAll [] hpart ?_
      rw [Site.pastAll_nil]
      cases element with
      | node id =>
        have hne : site.node ≠ id := fun heq => hself (heq ▸ rfl)
        simp only [Site.Between, Site.past, size, Site.inside, Site.pastAll] at h ⊢
        omega
      | token id => simpa [Site.Between, Site.past, tokens, Site.inside, Site.pastAll] using h

/-- Every element that is numbered within children of a part stands for a part. -/
theorem Part.exists_of_betweenAll {whole : Shape} {element : Element} :
    ∀ {shapes : List Shape} (before : List Shape) {home : Option NodeId} {kind : Kind}
    {field : Option Field} {site : Site},
    Part whole home (.node kind field (before ++ shapes)) site →
    (site.inside.pastAll before).Between ((site.inside.pastAll before).pastAll shapes) element →
    ∃ home' shape' site', Part whole home' shape' site' ∧ shape'.element site' = element
  | [], before, home, kind, field, site, hpart, h => by
    rw [Site.pastAll_nil] at h
    cases element <;> simp only [Site.Between] at h <;> omega
  | shape :: rest, before, home, kind, field, site, hpart, h => by
    rw [← List.singleton_append] at h
    rcases Site.between_append h with h | h
    · rw [Site.pastAll_singleton] at h
      exact Part.exists_of_between (.child hpart) h
    · rw [← Site.pastAll_append] at h
      exact Part.exists_of_betweenAll (before ++ [shape]) (by simpa using hpart) h

end

/-- The elements of shapes are those of each of them, at the place that those before it leave to it.
-/
theorem mem_elementsFrom {element : Element} {site : Site} {shapes : List Shape} :
    element ∈ elementsFrom site shapes ↔
      ∃ before shape after, shapes = before ++ shape :: after ∧
        element = shape.element (site.pastAll before) := by
  induction shapes generalizing site with
  | nil => simp [elementsFrom]
  | cons first rest ih =>
    rw [elementsFrom, List.mem_cons, ih]
    constructor
    · rintro (rfl | ⟨before, shape, after, rfl, rfl⟩)
      · exact ⟨[], first, rest, rfl, by simp⟩
      · exact ⟨first :: before, shape, after, rfl, by rw [Site.pastAll_cons]⟩
    · rintro ⟨before, shape, after, hshapes, rfl⟩
      cases before with
      | nil =>
        obtain ⟨rfl, rfl⟩ := List.cons.inj hshapes
        exact Or.inl (by simp)
      | cons head before =>
        obtain ⟨rfl, rfl⟩ := List.cons.inj hshapes
        exact Or.inr ⟨before, shape, after, rfl, by rw [Site.pastAll_cons]⟩

namespace Sits

variable {tree : Tree} {home : Option NodeId} {shape : Shape} {site : Site}

theorem has (h : shape.Sits tree home site) : tree.Has (shape.element site) := by
  cases shape with
  | leaf token field =>
    obtain ⟨parent, -, hleaf, -⟩ := h
    exact (Array.getElem?_eq_some_iff.mp hleaf).1
  | node kind field children => exact (Array.getElem?_eq_some_iff.mp h.1.entry).1

/-- The tables give a node the kind of its shape. -/
theorem kind_node {kind : Kind} {field : Option Field} {children : List Shape}
    (h : (node kind field children).Sits tree home site) : tree.kind site.node = kind :=
  congrArg Node.kind (Tree.node_eq h.1.entry)

theorem home?_element (h : shape.Sits tree home site) : tree.home? (shape.element site) = home := by
  cases shape with
  | leaf token field =>
    obtain ⟨parent, rfl, hleaf, -⟩ := h
    simp only [element, Tree.home?, Tree.leaf_eq hleaf, leafAt]
  | node kind field children =>
    simp only [element, Tree.home?, Tree.parent?, Tree.node_eq h.1.entry, nodeAt]

theorem tokenRun_element (h : shape.Sits tree home site) :
    tree.tokenRun (shape.element site) = ⟨site.token, shape.tokens.length⟩ := by
  cases shape with
  | leaf token field => rfl
  | node kind field children =>
    simp only [element, Tree.tokenRun, Tree.node_eq h.1.entry, nodeAt, tokens]

/-- An element spans what its shape covers. -/
theorem elementSpan_element (h : shape.Sits tree home site) :
    tree.elementSpan (shape.element site) = Span.sized site.offset (widthOf shape.tokens) := by
  cases shape with
  | leaf token field =>
    obtain ⟨parent, -, hleaf, hleading, htrailing⟩ := h
    have hstart := start_entriesFrom site.offset token.leading
    have hstop := stop_entriesFrom
      (site.offset + Piece.totalSize token.leading + token.span.size) token.trailing
    simp only [element, Tree.elementSpan, Tree.leafSpan, Tree.leading, Tree.trailing,
      Tree.leaf_eq hleaf, leafAt, hleading.entries, htrailing.entries, Span.sized, hstart, hstop,
      tokens, widthOf_singleton, Token.width]
    simp only [Nat.add_assoc]
  | node kind field children =>
    simp only [element, Tree.elementSpan, Tree.nodeSpan, Tree.node_eq h.1.entry, nodeAt, tokens]

end Sits

namespace SitsAll

variable {tree : Tree} {home : Option NodeId} {shapes : List Shape} {site : Site}

/-- Each of the elements stands for one of the shapes. -/
theorem exists_of_mem (h : SitsAll tree home shapes site) {element : Element}
    (hmem : element ∈ elementsFrom site shapes) :
    ∃ shape ∈ shapes, ∃ before, element = shape.element (site.pastAll before) ∧
      shape.Sits tree home (site.pastAll before) := by
  obtain ⟨before, shape, after, rfl, rfl⟩ := mem_elementsFrom.mp hmem
  exact ⟨shape, by simp, before, rfl, (sitsAll_append.mp h).2.1⟩

/-- The elements of shapes side by side are in the order of the text. -/
theorem pairwise_precedes (h : SitsAll tree home shapes site) :
    (elementsFrom site shapes).Pairwise tree.Precedes := by
  induction shapes generalizing site with
  | nil => exact List.Pairwise.nil
  | cons shape rest ih =>
    obtain ⟨hshape, hrest⟩ := h
    refine List.Pairwise.cons (fun other hmem => ?_) (ih hrest)
    obtain ⟨behind, -, before, rfl, hbehind⟩ := hrest.exists_of_mem hmem
    refine ⟨?_, ?_⟩
    · rw [hshape.tokenRun_element, hbehind.tokenRun_element]
      exact Nat.le_add_right _ _
    · intro id id' hid hid'
      cases shape with
      | leaf token field => cases hid
      | node kind field children =>
        cases behind with
        | leaf token field => cases hid'
        | node kind' field' children' =>
          obtain rfl := Element.node.inj hid
          obtain rfl := Element.node.inj hid'
          show site.node < site.node + (sizeAll children + 1) + sizeAll before
          omega

theorem abut (h : SitsAll tree home shapes site) :
    tree.Abut site.offset (elementsFrom site shapes) (site.pastAll shapes).offset := by
  induction shapes generalizing site with
  | nil => simp [elementsFrom, Tree.Abut]
  | cons shape rest ih =>
    obtain ⟨hshape, hrest⟩ := h
    rw [elementsFrom, Tree.Abut, hshape.elementSpan_element, Site.pastAll_cons]
    exact ⟨rfl, Nat.le_add_right _ _, ih hrest⟩

theorem mem_positions (h : SitsAll tree home shapes site) {token : TokenId} :
    token ∈ Run.positions ⟨site.token, (tokensAll shapes).length⟩ ↔
      ∃ element ∈ elementsFrom site shapes, token ∈ (tree.tokenRun element).positions := by
  induction shapes generalizing site with
  | nil => simp [Run.positions, elementsFrom]
  | cons shape rest ih =>
    obtain ⟨hshape, hrest⟩ := h
    have hrest := ih hrest
    simp only [elementsFrom, List.mem_cons, exists_eq_or_imp, ← hrest, hshape.tokenRun_element]
    simp only [Run.positions, Site.past, tokensAll, List.length_append, ← List.range'_append_1,
      List.mem_append]

end SitsAll

mutual

/-- The offset behind a shape is the one that its tokens reach. -/
theorem Sits.reached {tree : Tree} : ∀ {shape : Shape} {home : Option NodeId} (site : Site),
    shape.Sits tree home site → site.offset = tree.reached site.token →
    (site.past shape).offset = tree.reached (site.past shape).token
  | .leaf token field, home, site, h, _ => by
    have hspan := congrArg Span.stop h.elementSpan_element
    exact hspan.symm
  | .node kind field children, home, site, h, hsite => by
    have hinside := SitsAll.reached site.inside h.2 hsite
    simpa [Site.past, Site.pastAll, tokens, Site.inside] using hinside

/-- The offset behind shapes is the one that their tokens reach. -/
theorem SitsAll.reached {tree : Tree} : ∀ {shapes : List Shape} {home : Option NodeId}
    (site : Site), SitsAll tree home shapes site → site.offset = tree.reached site.token →
    (site.pastAll shapes).offset = tree.reached (site.pastAll shapes).token
  | [], home, site, _, hsite => by rwa [Site.pastAll_nil]
  | shape :: rest, home, site, h, hsite => by
    rw [Site.pastAll_cons]
    exact SitsAll.reached _ h.2 (Sits.reached site h.1 hsite)

end

theorem Part.reached {tree : Tree} {whole shape : Shape} {home : Option NodeId} {site : Site}
    (h : Part whole home shape site) (hw : whole.Sits tree none Site.front) :
    site.offset = tree.reached site.token := by
  induction h with
  | whole => rfl
  | @child home kind field before after shape site hpart ih =>
    have hall := (hpart.sits hw).2
    exact SitsAll.reached _ (sitsAll_append.mp hall).1 ih

/-- A part meets what all nodes of the whole meet. -/
theorem Part.all {holds : Kind → List Shape → Prop} {whole shape : Shape} {home : Option NodeId}
    {site : Site} (h : Part whole home shape site) (hw : whole.All holds) : shape.All holds := by
  induction h with
  | whole => exact hw
  | child _ ih => exact allOf_iff.mp ih.2 _ (by simp)

/-- The tokens of a part are among those of the whole, behind as many as its place says. -/
theorem Part.exists_tokens {whole shape : Shape} {home : Option NodeId} {site : Site}
    (h : Part whole home shape site) :
    ∃ front back, whole.tokens = front ++ shape.tokens ++ back ∧ front.length = site.token ∧
      widthOf front = site.offset := by
  induction h with
  | whole => exact ⟨[], [], by simp, rfl, rfl⟩
  | @child home kind field before after shape site _ ih =>
    obtain ⟨front, back, htokens, hlength, hwidth⟩ := ih
    refine ⟨front ++ tokensAll before, tokensAll after ++ back, ?_, ?_, ?_⟩
    · rw [htokens, tokens, tokensAll_append, tokensAll]
      simp only [List.append_assoc]
    · simp [Site.pastAll, Site.inside, hlength]
    · simp [Site.pastAll, Site.inside, hwidth]

mutual

/-- The tokens of a shape are numbered one after the other. -/
theorem Sits.places {tree : Tree} : ∀ {shape : Shape} {home : Option NodeId} {site : Site},
    shape.Sits tree home site →
    (List.range' site.token shape.tokens.length).map (fun id => (tree.leaf id).place) =
      placesFrom site.offset shape.tokens
  | .leaf token field, home, site, h => by
    obtain ⟨parent, -, hleaf, -⟩ := h
    simp [tokens, placesFrom, Tree.leaf_eq hleaf, Leaf.place, leafAt]
  | .node kind field children, home, site, h => by
    have hall := SitsAll.places h.2
    rw [tokens]
    exact hall

/-- The tokens of shapes side by side are numbered one after the other. -/
theorem SitsAll.places {tree : Tree} : ∀ {shapes : List Shape} {home : Option NodeId} {site : Site},
    SitsAll tree home shapes site →
    (List.range' site.token (tokensAll shapes).length).map (fun id => (tree.leaf id).place) =
      placesFrom site.offset (tokensAll shapes)
  | [], home, site, h => by simp [placesFrom]
  | shape :: rest, home, site, h => by
    have hrest := SitsAll.places h.2
    rw [tokensAll, placesFrom_append, ← Sits.places h.1, List.length_append,
      ← List.range'_append_1, List.map_append]
    exact congrArg _ hrest

end

end Shape

end ScriptTree

import Mathlib.Data.List.Pairwise
import ScriptTree.Proofs.Tree.Pointers

/-!
The least cover of a span. Among the elements at or below a node, those that cover a span with bytes
lie inside each other, and a search that goes down from child to child ends at the innermost one. An
empty span may be covered by elements side by side, and the search goes down into the first of them.
-/

namespace ScriptTree

namespace Tree

def Below (tree : Tree) (id : NodeId) (element : Element) : Prop :=
  tree.Has element ∧ id ∈ tree.ancestors (tree.around element)

def Encloses (tree : Tree) (element other : Element) : Prop :=
  element = other ∨ ∃ id, element = .node id ∧ id ∈ tree.ancestors (tree.around other)

/-- The innermost element at or below a node that covers a span: it has no child that does, and if
the span has bytes, whatever else covers it is around this element. -/
structure LeastCover (tree : Tree) (id : NodeId) (span : Span) (found : Element) : Prop where
  below : tree.Below id found
  covers : (tree.elementSpan found).covers span = true
  least : ∀ node, found = .node node → ∀ child ∈ tree.elements node,
    (tree.elementSpan child).covers span = false
  sole : span.start < span.stop → ∀ element, tree.Below id element →
    (tree.elementSpan element).covers span = true → tree.Encloses element found

end Tree

theorem Span.covers_iff {span inner : Span} :
    span.covers inner = true ↔ span.start ≤ inner.start ∧ inner.stop ≤ span.stop := by
  simp [covers]

theorem Span.covers_trans {outer middle inner : Span} (h : outer.covers middle = true)
    (h' : middle.covers inner = true) : outer.covers inner = true := by
  rw [covers_iff] at h h' ⊢
  omega

namespace Tree

/-- Elements that lie side by side lie between the ends. -/
theorem Abut.within {tree : Tree} {start stop : Nat} {elements : List Element}
    (h : tree.Abut start elements stop) :
    start ≤ stop ∧ ∀ element ∈ elements,
      start ≤ (tree.elementSpan element).start ∧ (tree.elementSpan element).stop ≤ stop := by
  induction elements generalizing start with
  | nil => exact ⟨Nat.le_of_eq h, nofun⟩
  | cons first rest ih =>
    obtain ⟨hstart, hstop, hrest⟩ := h
    obtain ⟨hle, hwithin⟩ := ih hrest
    refine ⟨Nat.le_trans hstop hle, fun element hmem => ?_⟩
    rcases List.mem_cons.mp hmem with rfl | hmem
    · exact ⟨Nat.le_of_eq hstart.symm, hle⟩
    · obtain ⟨hstart', hstop'⟩ := hwithin element hmem
      exact ⟨Nat.le_trans hstop hstart', hstop'⟩

/-- Each of them stops before the next ones start. -/
theorem Abut.pairwise {tree : Tree} {start stop : Nat} {elements : List Element}
    (h : tree.Abut start elements stop) :
    elements.Pairwise fun element other =>
      (tree.elementSpan element).stop ≤ (tree.elementSpan other).start := by
  induction elements generalizing start with
  | nil => exact .nil
  | cons first rest ih =>
    obtain ⟨-, -, hrest⟩ := h
    exact .cons (fun element hmem => (hrest.within.2 element hmem).1) (ih hrest)

theorem of_coveringChild? {tree : Tree} {id : NodeId} {span : Span} {element : Element}
    (h : tree.coveringChild? id span = some element) :
    element ∈ tree.elements id ∧ (tree.elementSpan element).covers span = true :=
  ⟨List.mem_of_find?_eq_some h,
    List.find?_some (p := fun child => (tree.elementSpan child).covers span) h⟩

namespace Houses

variable {tree : Tree} {whole : Shape} {id below : NodeId} {element other : Element} {span : Span}

theorem covers_child (h : tree.Houses whole) (hid : id < tree.nodeCount)
    (hmem : element ∈ tree.elements id) :
    (tree.nodeSpan id).covers (tree.elementSpan element) = true :=
  Span.covers_iff.mpr ((h.abut hid).1.within.2 element hmem)

/-- Children of a node side by side do not share a byte. -/
theorem eq_of_covers (h : tree.Houses whole) (hid : id < tree.nodeCount)
    (hspan : span.start < span.stop) (hmem : element ∈ tree.elements id)
    (hmem' : other ∈ tree.elements id) (hcovers : (tree.elementSpan element).covers span = true)
    (hcovers' : (tree.elementSpan other).covers span = true) : element = other := by
  have hapart : (tree.elements id).Pairwise fun element other =>
      ¬ ((tree.elementSpan element).covers span = true ∧
        (tree.elementSpan other).covers span = true) := by
    refine (h.abut hid).1.pairwise.imp fun hstop hboth => ?_
    rw [Span.covers_iff, Span.covers_iff] at hboth
    omega
  have hsymm : Std.Symm fun element other : Element =>
      ¬ ((tree.elementSpan element).covers span = true ∧
        (tree.elementSpan other).covers span = true) :=
    ⟨fun _ _ hnot hboth => hnot hboth.symm⟩
  by_contra hne
  exact hapart.forall hmem hmem' hne ⟨hcovers, hcovers'⟩

/-- A node covers the nodes below it. -/
theorem covers_of_mem_ancestors (h : tree.Houses whole) {above : NodeId} (hid : id < tree.nodeCount)
    (habove : above ∈ tree.ancestors id) :
    (tree.nodeSpan above).covers (tree.nodeSpan id) = true := by
  induction id using Nat.strong_induction_on with
  | _ id ih =>
    rcases (h.mem_ancestors hid).mp habove with rfl | ⟨parent, hparent, hmem⟩
    · exact Span.covers_iff.mpr ⟨Nat.le_refl _, Nat.le_refl _⟩
    · obtain ⟨hlt, hlisted⟩ := h.mem_elements_of_home (.node id) hid hparent
      exact Span.covers_trans (ih parent (h.parent_lt hid hparent) hlt hmem)
        (h.covers_child hlt hlisted)

theorem below_self (h : tree.Houses whole) (hid : id < tree.nodeCount) :
    tree.Below id (.node id) :=
  ⟨hid, h.mem_ancestors_self hid⟩

/-- What is below a child of a node is below the node. -/
theorem below_of_parent (h : tree.Houses whole) (hparent : tree.parent? below = some id)
    (hbelow : tree.Below below element) : tree.Below id element := by
  obtain ⟨hhas, hmem⟩ := hbelow
  refine ⟨hhas, h.mem_ancestors_trans ?_ hmem hparent⟩
  cases element with
  | node inner => exact hhas
  | token token => exact (h.mem_elements_of_home (.token token) hhas rfl).1

/-- The way from a node down to another one starts with a child, which covers the other one. -/
theorem exists_node_toward (h : tree.Houses whole) {inner : NodeId}
    (hinner : inner < tree.nodeCount) (hmem : id ∈ tree.ancestors inner) (hne : id ≠ inner) :
    ∃ child, .node child ∈ tree.elements id ∧ child ∈ tree.ancestors inner ∧
      (tree.nodeSpan child).covers (tree.nodeSpan inner) = true := by
  obtain ⟨child, hchild, hparent⟩ := h.exists_child_toward hinner hmem hne
  have hlt : child < tree.nodeCount :=
    Nat.lt_of_le_of_lt (h.le_of_mem_ancestors hinner hchild) hinner
  exact ⟨child, (h.mem_elements_of_home (.node child) hlt hparent).2, hchild,
    h.covers_of_mem_ancestors hinner hchild⟩

/-- The way from a node down to an element below it starts with a child, which covers the element:
the element itself, or a node around it. -/
theorem exists_child_around (h : tree.Houses whole) (hbelow : tree.Below id element)
    (hne : element ≠ .node id) :
    ∃ child ∈ tree.elements id,
      (child = element ∨ ∃ node, child = .node node ∧ tree.Below node element) ∧
      (tree.elementSpan child).covers (tree.elementSpan element) = true := by
  obtain ⟨hhas, hmem⟩ := hbelow
  cases element with
  | node inner =>
    obtain ⟨child, hlisted, hchild, hcovers⟩ :=
      h.exists_node_toward hhas hmem fun heq => hne (congrArg Element.node heq.symm)
    exact ⟨.node child, hlisted, .inr ⟨child, rfl, hhas, hchild⟩, hcovers⟩
  | token token =>
    obtain ⟨hlt, hlisted⟩ := h.mem_elements_of_home (.token token) hhas rfl
    by_cases heq : id = (tree.leaf token).parent
    · rw [heq]
      exact ⟨.token token, hlisted, .inl rfl, Span.covers_iff.mpr ⟨Nat.le_refl _, Nat.le_refl _⟩⟩
    · obtain ⟨child, hlisted', hchild, hcovers⟩ := h.exists_node_toward hlt hmem heq
      exact ⟨.node child, hlisted', .inr ⟨child, rfl, hhas, hchild⟩,
        Span.covers_trans hcovers (h.covers_child hlt hlisted)⟩

/-- If no child of a node covers a span that the node covers, the node is the least cover. -/
theorem leastCover_self (h : tree.Houses whole) (hid : id < tree.nodeCount)
    (hcovers : (tree.nodeSpan id).covers span = true)
    (hnone : tree.coveringChild? id span = none) : tree.LeastCover id span (.node id) := by
  have hleast : ∀ child ∈ tree.elements id, (tree.elementSpan child).covers span = false := by
    intro child hmem
    exact Bool.eq_false_iff.mpr (List.find?_eq_none.mp hnone child hmem)
  refine ⟨h.below_self hid, hcovers, ?_, fun _ element hbelow hspan => ?_⟩
  · rintro node ⟨⟩
    exact hleast
  · by_cases hself : element = .node id
    · exact .inl hself
    · obtain ⟨child, hmem, -, haround⟩ := h.exists_child_around hbelow hself
      cases (hleast child hmem).symm.trans (Span.covers_trans haround hspan)

/-- A token of a node that covers a span is its least cover. -/
theorem leastCover_token (h : tree.Houses whole) (hid : id < tree.nodeCount) {token : TokenId}
    (hchild : tree.coveringChild? id span = some (.token token)) :
    tree.LeastCover id span (.token token) := by
  obtain ⟨hlisted, hcovers⟩ := of_coveringChild? hchild
  obtain ⟨hhas, hhome, -⟩ := h.of_mem_elements hid hlisted
  obtain rfl : (tree.leaf token).parent = id := Option.some.inj hhome
  refine ⟨⟨hhas, h.mem_ancestors_self hid⟩, hcovers, nofun, fun hspan element hbelow hcovers' => ?_⟩
  by_cases hself : element = .node (tree.leaf token).parent
  · exact .inr ⟨_, hself, h.mem_ancestors_self hid⟩
  · obtain ⟨child, hmem, hchild', haround⟩ := h.exists_child_around hbelow hself
    obtain rfl := h.eq_of_covers hid hspan hmem hlisted (Span.covers_trans haround hcovers') hcovers
    rcases hchild' with rfl | ⟨node, hnode, -⟩
    · exact .inl rfl
    · cases hnode

/-- The least cover below a child that covers a span is the least cover below the node. -/
theorem leastCover_child (h : tree.Houses whole) (hid : id < tree.nodeCount) {found : Element}
    (hchild : tree.coveringChild? id span = some (.node below))
    (hfound : tree.LeastCover below span found) : tree.LeastCover id span found := by
  obtain ⟨hlisted, hcovers⟩ := of_coveringChild? hchild
  obtain ⟨hhas, hhome, -⟩ := h.of_mem_elements hid hlisted
  have hbelow := h.below_of_parent hhome hfound.below
  refine ⟨hbelow, hfound.covers, hfound.least, fun hspan element helement hcovers' => ?_⟩
  by_cases hself : element = .node id
  · exact .inr ⟨id, hself, hbelow.2⟩
  · obtain ⟨child, hmem, hchild', haround⟩ := h.exists_child_around helement hself
    obtain rfl := h.eq_of_covers hid hspan hmem hlisted (Span.covers_trans haround hcovers') hcovers
    refine hfound.sole hspan element ?_ hcovers'
    rcases hchild' with rfl | ⟨node, hnode, hinside⟩
    · exact h.below_self hhas
    · obtain rfl := Element.node.inj hnode
      exact hinside

/-- The way down from child to child ends at the least cover. -/
theorem leastCover_coveringUpTo (h : tree.Houses whole) (hid : id < tree.nodeCount)
    (hcovers : (tree.nodeSpan id).covers span = true) {limit : Nat}
    (hlimit : tree.nodeCount ≤ id + limit) :
    tree.LeastCover id span (tree.coveringUpTo id span limit) := by
  -- each step goes to a node with a larger number, so the limit is not reached
  induction limit generalizing id with
  | zero => exact absurd hid (Nat.not_lt.mpr hlimit)
  | succ limit ih =>
    rw [coveringUpTo]
    cases hchild : tree.coveringChild? id span with
    | none => exact h.leastCover_self hid hcovers hchild
    | some child =>
      cases child with
      | token token => exact h.leastCover_token hid hchild
      | node child =>
        obtain ⟨hlisted, hcovers'⟩ := of_coveringChild? hchild
        obtain ⟨hhas, -, hbehind⟩ := h.of_mem_elements hid hlisted
        have hlt : Nat.succ id ≤ child := hbehind child rfl
        exact h.leastCover_child hid hchild (ih hhas hcovers' (by omega))

/-- A larger limit leads to the same element. -/
theorem coveringUpTo_eq (h : tree.Houses whole) (hid : id < tree.nodeCount) {limit limit' : Nat}
    (hlimit : tree.nodeCount ≤ id + limit) (hlimit' : tree.nodeCount ≤ id + limit') :
    tree.coveringUpTo id span limit = tree.coveringUpTo id span limit' := by
  induction limit generalizing id limit' with
  | zero => exact absurd hid (Nat.not_lt.mpr hlimit)
  | succ limit ih =>
    cases limit' with
    | zero => exact absurd hid (Nat.not_lt.mpr hlimit')
    | succ limit' =>
      rw [coveringUpTo, coveringUpTo]
      cases hchild : tree.coveringChild? id span with
      | none => rfl
      | some child =>
        cases child with
        | token token => rfl
        | node child =>
          obtain ⟨hhas, -, hbehind⟩ := h.of_mem_elements hid (of_coveringChild? hchild).1
          have hlt : Nat.succ id ≤ child := hbehind child rfl
          exact ih hhas (by omega) (by omega)

end Houses

/-- In every tree that is built, the search for an element around a span that a node covers ends at
the least cover of the span, and does not run into the limit on the way. -/
theorem covering_leastCover {text : String} {steps : List BuildStep} {tree : Tree}
    (h : Tree.build text steps = .ok tree) {id : NodeId} (hid : id < tree.nodeCount) {span : Span}
    (hspan : (tree.nodeSpan id).covers span = true) :
    tree.LeastCover id span (tree.covering id span) ∧
      ∀ limit ≥ tree.nodeCount, tree.coveringUpTo id span limit = tree.covering id span := by
  obtain ⟨kind, field, children, rfl, hhouses⟩ := Tree.houses_of_build h
  refine ⟨hhouses.leastCover_coveringUpTo hid hspan (Nat.le_add_left _ _), fun limit hlimit => ?_⟩
  exact hhouses.coveringUpTo_eq hid (Nat.le_trans hlimit (Nat.le_add_left _ _))
    (Nat.le_add_left _ _)

/-- At the end of the text a token, an empty node and an empty token cover the empty span, and the
first of them is found. -/
theorem covering_leastCover_empty :
    ∃ tree, Tree.build " a" [.start .sourceFile none, .token [⟨.whitespace, 1⟩] .name 1 [] none,
        .start .argumentList (some .value), .finish, .token [] .eof 0 [] none, .finish] = .ok tree ∧
      root < tree.nodeCount ∧ (tree.nodeSpan root).covers ⟨2, 2⟩ = true ∧
      tree.LeastCover root ⟨2, 2⟩ (.token 0) := by
  have hfacts : (Tree.build " a" [.start .sourceFile none,
      .token [⟨.whitespace, 1⟩] .name 1 [] none, .start .argumentList (some .value), .finish,
      .token [] .eof 0 [] none, .finish]).toOption.any (fun tree =>
        decide (root < tree.nodeCount ∧ (tree.nodeSpan root).covers ⟨2, 2⟩ = true ∧
          tree.covering root ⟨2, 2⟩ = .token 0)) = true := by
    decide +kernel
  obtain ⟨tree, htree⟩ : ∃ tree, Tree.build " a" [.start .sourceFile none,
      .token [⟨.whitespace, 1⟩] .name 1 [] none, .start .argumentList (some .value), .finish,
      .token [] .eof 0 [] none, .finish] = .ok tree := ⟨_, rfl⟩
  rw [htree] at hfacts
  obtain ⟨hroot, hspan, hfound⟩ := of_decide_eq_true hfacts
  have hleast := (covering_leastCover htree hroot hspan).1
  rw [hfound] at hleast
  exact ⟨tree, htree, hroot, hspan, hleast⟩

end Tree

end ScriptTree

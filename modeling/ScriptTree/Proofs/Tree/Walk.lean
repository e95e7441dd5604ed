import ScriptTree.Proofs.Tree.Parts
import ScriptTree.Tree.Walk

/-!
Walks through the tree of a shape. A walk goes through the shape bracket by bracket, so its reports
follow the steps that built the tree, and the nodes that it enters are numbered in order.
-/

namespace ScriptTree

namespace Shape

mutual

def visits (skips : NodeId → Bool) : Shape → Site → List Visit
  | .leaf _ _, site => [.token site.token]
  | .node _ _ children, site =>
    .enter site.node ::
      if skips site.node then [] else visitsAll skips children site.inside ++ [.leave site.node]

def visitsAll (skips : NodeId → Bool) : List Shape → Site → List Visit
  | [], _ => []
  | shape :: rest, site => shape.visits skips site ++ visitsAll skips rest (site.past shape)

end

mutual

/-- A walk reports entering and leaving a node at most once, and so for tokens. -/
theorem length_visits_le (skips : NodeId → Bool) : ∀ (shape : Shape) (site : Site),
    (shape.visits skips site).length ≤ 2 * shape.size + shape.tokens.length
  | .leaf token field, site => by simp [visits, size, tokens]
  | .node kind field children, site => by
    have hall := length_visitsAll_le skips children site.inside
    rw [visits, size, tokens]
    split
    · simp only [List.length_singleton]
      omega
    · simp only [List.length_cons, List.length_append, List.length_nil]
      omega

theorem length_visitsAll_le (skips : NodeId → Bool) : ∀ (shapes : List Shape) (site : Site),
    (visitsAll skips shapes site).length ≤ 2 * sizeAll shapes + (tokensAll shapes).length
  | [], site => by simp [visitsAll]
  | shape :: rest, site => by
    have hshape := length_visits_le skips shape site
    have hrest := length_visitsAll_le skips rest (site.past shape)
    rw [visitsAll, sizeAll, tokensAll, List.length_append, List.length_append]
    omega

end

/-- A part ends where the whole ends, or before. -/
theorem Part.past_le {whole shape : Shape} {home : Option NodeId} {site : Site}
    (h : Part whole home shape site) :
    site.node + shape.size ≤ whole.size ∧
      site.token + shape.tokens.length ≤ whole.tokens.length := by
  induction h with
  | whole => simp [Site.front]
  | child _ ih =>
    obtain ⟨hnode, htoken⟩ := ih
    simp only [size, tokens, sizeAll_append, tokensAll_append, sizeAll, tokensAll,
      List.length_append] at hnode htoken
    simp only [Site.pastAll, Site.inside]
    omega

end Shape

namespace Walk

variable {tree : Tree} {skips : NodeId → Bool} {pending : Option NodeId} {node child : NodeId}
  {more : List Element} {outer : List (NodeId × List Element)} {limit : Nat}

theorem visitsUpTo_skip (h : skips child = true) :
    visitsUpTo tree skips ⟨pending, (node, .node child :: more) :: outer⟩ (limit + 1) =
      .enter child :: visitsUpTo tree skips ⟨pending, (node, more) :: outer⟩ limit := by
  simp [visitsUpTo, next?, h, skipSubtree?]

theorem visitsUpTo_enter (h : skips child = false) :
    visitsUpTo tree skips ⟨pending, (node, .node child :: more) :: outer⟩ (limit + 1) =
      .enter child ::
        visitsUpTo tree skips ⟨pending, (child, tree.elements child) :: (node, more) :: outer⟩
          limit := by
  simp [visitsUpTo, next?, h]

theorem visitsUpTo_leave :
    visitsUpTo tree skips ⟨pending, (node, []) :: outer⟩ (limit + 1) =
      .leave node :: visitsUpTo tree skips ⟨pending, outer⟩ limit := by
  simp [visitsUpTo, next?]

theorem visitsUpTo_begin :
    visitsUpTo tree skips (beginAt node) (limit + 1) =
      .enter node :: visitsUpTo tree skips
        ⟨none, if skips node then [] else [(node, tree.elements node)]⟩ limit := by
  cases h : skips node <;> simp [visitsUpTo, next?, beginAt, h, skipSubtree?]

/-- A walk that has left everything reports nothing. -/
theorem visitsUpTo_done : visitsUpTo tree skips ⟨none, []⟩ limit = [] := by
  cases limit <;> rfl

mutual

/-- A walk that comes to an element goes through the shape that it stands for. -/
theorem visitsUpTo_element (skips : NodeId → Bool) : ∀ {shape : Shape} {home : Option NodeId}
    {site : Site}, shape.Sits tree home site → ∀ (pending : Option NodeId) (node : NodeId)
    (more : List Element) (outer : List (NodeId × List Element)) (limit : Nat),
    visitsUpTo tree skips ⟨pending, (node, shape.element site :: more) :: outer⟩
        ((shape.visits skips site).length + limit) =
      shape.visits skips site ++ visitsUpTo tree skips ⟨pending, (node, more) :: outer⟩ limit
  | .leaf token field, home, site, h, pending, node, more, outer, limit => by
    rw [Shape.visits, List.length_singleton, Nat.add_comm 1]
    simp [Shape.element, visitsUpTo, next?]
  | .node kind field children, home, site, h, pending, node, more, outer, limit => by
    obtain ⟨hlists, hall⟩ := h
    rw [Shape.visits, Shape.element]
    cases hskips : skips site.node with
    | true =>
      rw [if_pos rfl, List.length_singleton, Nat.add_comm 1, visitsUpTo_skip hskips]
      rfl
    | false =>
      have hinside := visitsUpTo_elements skips hall pending site.node [] ((node, more) :: outer)
        (limit + 1)
      rw [List.append_nil] at hinside
      rw [if_neg Bool.false_ne_true, List.length_cons, Nat.add_right_comm, visitsUpTo_enter hskips,
        hlists.elements, List.length_append, List.length_singleton, Nat.add_assoc, Nat.add_comm 1,
        hinside, visitsUpTo_leave]
      simp

/-- By induction on the shapes: a walk reports those of a node one after the other, and comes back
to what is left of it. -/
theorem visitsUpTo_elements (skips : NodeId → Bool) : ∀ {shapes : List Shape}
    {home : Option NodeId} {site : Site}, Shape.SitsAll tree home shapes site →
    ∀ (pending : Option NodeId) (node : NodeId) (more : List Element)
    (outer : List (NodeId × List Element)) (limit : Nat),
    visitsUpTo tree skips ⟨pending, (node, Shape.elementsFrom site shapes ++ more) :: outer⟩
        ((Shape.visitsAll skips shapes site).length + limit) =
      Shape.visitsAll skips shapes site ++
        visitsUpTo tree skips ⟨pending, (node, more) :: outer⟩ limit
  | [], home, site, h, pending, node, more, outer, limit => by
    simp [Shape.visitsAll, Shape.elementsFrom]
  | shape :: rest, home, site, h, pending, node, more, outer, limit => by
    rw [Shape.visitsAll, List.length_append, Nat.add_assoc, Shape.elementsFrom, List.cons_append,
      visitsUpTo_element skips h.1, visitsUpTo_elements skips h.2, List.append_assoc]

end

end Walk

namespace Tree.Houses

variable {tree : Tree} {whole : Shape}

/-- A walk through a part makes no more reports than there are nodes and tokens to report. -/
theorem length_visits_le (h : tree.Houses whole) {home : Option NodeId} {shape : Shape}
    {site : Site} (hpart : whole.Part home shape site) (skips : NodeId → Bool) :
    (shape.visits skips site).length ≤ 2 * tree.nodeCount + tree.leafCount := by
  have hlength := shape.length_visits_le skips site
  obtain ⟨hnodes, htokens⟩ := hpart.past_le
  rw [h.nodes, h.leaves]
  omega

/-- A walk from a node goes through the part that the node stands for, if the bound on the reports
leaves room for it. -/
theorem visitsUpTo_eq (h : tree.Houses whole) {home : Option NodeId} {kind : Kind}
    {field : Option Field} {children : List Shape} {site : Site}
    (hpart : whole.Part home (.node kind field children) site) (skips : NodeId → Bool) {limit : Nat}
    (hlimit : ((Shape.node kind field children).visits skips site).length ≤ limit) :
    Walk.visitsUpTo tree skips (Walk.beginAt site.node) limit =
      (Shape.node kind field children).visits skips site := by
  obtain ⟨hlists, hall⟩ := hpart.sits h.sits
  obtain ⟨spare, rfl⟩ := Nat.exists_eq_add_of_le hlimit
  rw [Shape.visits, List.length_cons, Nat.add_right_comm, Walk.visitsUpTo_begin]
  congr 1
  cases hskips : skips site.node with
  | true => exact Walk.visitsUpTo_done
  | false =>
    have hinside := Walk.visitsUpTo_elements skips hall none site.node [] [] (spare + 1)
    rw [List.append_nil] at hinside
    simp only [Bool.false_eq_true, if_false, List.length_append, List.length_singleton]
    rw [hlists.elements, Nat.add_assoc, Nat.add_comm 1, hinside, Walk.visitsUpTo_leave,
      Walk.visitsUpTo_done]

/-- A walk from a node goes through the part that the node stands for. -/
theorem visitsSkipping_eq (h : tree.Houses whole) {home : Option NodeId} {kind : Kind}
    {field : Option Field} {children : List Shape} {site : Site}
    (hpart : whole.Part home (.node kind field children) site) (skips : NodeId → Bool) :
    tree.visitsSkipping site.node skips = (Shape.node kind field children).visits skips site :=
  h.visitsUpTo_eq hpart skips (h.length_visits_le hpart skips)

end Tree.Houses

/-- The reports of a walk that enters a node at each start, passes a token at each token and leaves
the innermost open node at each end, numbering nodes and tokens as they come. -/
def BuildStep.reports : List NodeId → NodeId → TokenId → List BuildStep → List Visit
  | _, _, _, [] => []
  | opened, node, leaf, .start _ _ :: rest =>
    .enter node :: reports (node :: opened) (node + 1) leaf rest
  | opened, node, leaf, .token _ _ _ _ _ :: rest =>
    .token leaf :: reports opened node (leaf + 1) rest
  | inner :: outer, node, leaf, .finish :: rest => .leave inner :: reports outer node leaf rest
  | [], _, _, .finish :: _ => []

def Visit.entered? : Visit → Option NodeId
  | .enter node => some node
  | _ => none

def TriviaEntry.piece (entry : TriviaEntry) : Piece :=
  ⟨entry.kind, entry.span.size⟩

theorem map_piece_entriesFrom (offset : Nat) (pieces : List Piece) :
    (entriesFrom offset pieces).map TriviaEntry.piece = pieces := by
  induction pieces generalizing offset with
  | nil => rfl
  | cons piece rest ih => simp [entriesFrom, ih, TriviaEntry.piece, Span.sized, Span.size]

def Tree.stepOf (tree : Tree) : Visit → BuildStep
  | .enter id => .start (tree.kind id) (tree.node id).field
  | .token id =>
    .token ((tree.leading id).map TriviaEntry.piece) (tree.leaf id).kind (tree.leaf id).span.size
      ((tree.trailing id).map TriviaEntry.piece) (tree.leaf id).field
  | .leave _ => .finish

namespace Shape

mutual

/-- The reports of a full walk number the steps. -/
theorem visits_eq_reports : ∀ (shape : Shape) (site : Site) (opened : List NodeId)
    (more : List BuildStep),
    BuildStep.reports opened site.node site.token (shape.steps ++ more) =
      shape.visits (fun _ => false) site ++
        BuildStep.reports opened (site.past shape).node (site.past shape).token more
  | .leaf token field, site, opened, more => by
    simp [steps, visits, BuildStep.reports, Site.past, size, tokens]
  | .node kind field children, site, opened, more => by
    have hinside := visitsAll_eq_reports children site.inside (site.node :: opened)
      (.finish :: more)
    have hpast : BuildStep.reports opened (site.inside.pastAll children).node
          (site.inside.pastAll children).token more =
        BuildStep.reports opened (site.past (.node kind field children)).node
          (site.past (.node kind field children)).token more := by
      simp only [Site.past, Site.pastAll, Site.inside, size, tokens, Nat.add_assoc, Nat.add_comm 1]
    simp only [Site.inside] at hinside
    simp [steps, visits, BuildStep.reports, hinside, ← hpast]
    rfl

theorem visitsAll_eq_reports : ∀ (shapes : List Shape) (site : Site) (opened : List NodeId)
    (more : List BuildStep),
    BuildStep.reports opened site.node site.token (stepsAll shapes ++ more) =
      visitsAll (fun _ => false) shapes site ++
        BuildStep.reports opened (site.pastAll shapes).node (site.pastAll shapes).token more
  | [], site, opened, more => by simp [visitsAll]
  | shape :: rest, site, opened, more => by
    rw [stepsAll, List.append_assoc, visits_eq_reports shape, visitsAll_eq_reports rest, visitsAll,
      List.append_assoc, Site.pastAll_cons]

end

mutual

/-- The reports of a full walk show the steps. -/
theorem Sits.map_stepOf {tree : Tree} : ∀ {shape : Shape} {home : Option NodeId} {site : Site},
    shape.Sits tree home site →
    (shape.visits (fun _ => false) site).map tree.stepOf = shape.steps
  | .leaf token field, home, site, h => by
    obtain ⟨parent, -, hleaf, hleading, htrailing⟩ := h
    simp [visits, steps, Tree.stepOf, Tree.leading, Tree.trailing, Tree.leaf_eq hleaf, leafAt,
      hleading.entries, htrailing.entries, map_piece_entriesFrom, Span.sized, Span.size]
  | .node kind field children, home, site, h => by
    have hinside := SitsAll.map_stepOf h.2
    simp [visits, steps, Tree.stepOf, Tree.kind, Tree.node_eq h.1.entry, nodeAt, hinside]

theorem SitsAll.map_stepOf {tree : Tree} : ∀ {shapes : List Shape} {home : Option NodeId}
    {site : Site}, SitsAll tree home shapes site →
    (visitsAll (fun _ => false) shapes site).map tree.stepOf = stepsAll shapes
  | [], home, site, h => by simp [visitsAll]
  | shape :: rest, home, site, h => by
    rw [visitsAll, stepsAll, List.map_append, Sits.map_stepOf h.1, SitsAll.map_stepOf h.2]

end

mutual

/-- A full walk enters the nodes in the order of their numbers. -/
theorem filterMap_entered_visits : ∀ (shape : Shape) (site : Site),
    (shape.visits (fun _ => false) site).filterMap Visit.entered? = List.range' site.node shape.size
  | .leaf token field, site => by simp [visits, size, Visit.entered?]
  | .node kind field children, site => by
    have hinside := filterMap_entered_visitsAll children site.inside
    have hleave : [Visit.leave site.node].filterMap Visit.entered? = [] := rfl
    simp only [visits, size, Bool.false_eq_true, if_false, List.filterMap_cons, Visit.entered?,
      List.filterMap_append, hinside, hleave, List.append_nil, List.range'_succ]
    rfl

theorem filterMap_entered_visitsAll : ∀ (shapes : List Shape) (site : Site),
    (visitsAll (fun _ => false) shapes site).filterMap Visit.entered? =
      List.range' site.node (sizeAll shapes)
  | [], site => by simp [visitsAll, sizeAll]
  | shape :: rest, site => by
    rw [visitsAll, sizeAll, List.filterMap_append, filterMap_entered_visits shape,
      filterMap_entered_visitsAll rest, ← List.range'_append_1, Site.past]

end

end Shape

end ScriptTree

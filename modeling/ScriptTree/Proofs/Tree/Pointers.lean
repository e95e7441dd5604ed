import ScriptTree.Proofs.Tree.Family
import ScriptTree.Tree.Locate

/-!
Finding nodes again by their kind and their span. The way down from the root to the smallest element
around the span of a node comes by that node, and on the way up from there no other node has its
kind and its span, if nodes that share their tokens differ in kind.
-/

namespace ScriptTree

namespace Tree

def around (tree : Tree) : Element → NodeId
  | .node id => id
  | .token id => (tree.leaf id).parent

/-- What tells nodes apart. No node is empty. Inside the root tokens have characters, nodes are of
other kinds than the root, and where a node is all that a node has, it is of a lower rank. -/
structure Discerned (tree : Tree) (rank : Kind → Nat) : Prop where
  full : ∀ id < tree.nodeCount, 0 < (tree.node id).tokens.count
  solid : ∀ id < tree.nodeCount, id ≠ root → ∀ token ∈ tree.tokensBelow id,
    (tree.leaf token).span.start < (tree.leaf token).span.stop
  inner : ∀ id < tree.nodeCount, id ≠ root → tree.kind id ≠ tree.kind root
  sole : ∀ id < tree.nodeCount, id ≠ root → ∀ child, tree.elements id = [.node child] →
    rank (tree.kind child) < rank (tree.kind id)

end Tree

namespace Tree.Houses

variable {tree : Tree} {whole : Shape}

/-- A token lies between the tokens in front of it and those behind it. -/
theorem leaf_within (h : tree.Houses whole) {id : TokenId} (hid : id < tree.leafCount) :
    tree.reached id ≤ (tree.leaf id).span.start ∧
      (tree.leaf id).span.start ≤ (tree.leaf id).span.stop ∧
      (tree.leaf id).span.stop ≤ tree.reached (id + 1) := by
  obtain ⟨home, shape, site, hpart, helement⟩ := h.exists_part (.token id) hid
  cases shape with
  | node kind field children => cases helement
  | leaf token field =>
    obtain rfl := Element.token.inj helement
    have hsits := hpart.sits h.sits
    have hoffset := hpart.reached h.sits
    have hstop := congrArg Span.stop hsits.elementSpan_element
    obtain ⟨parent, -, hleaf, -⟩ := hsits
    rw [leaf_eq hleaf, ← hoffset]
    change tree.reached (site.token + 1) = _ at hstop
    rw [hstop]
    simp only [Shape.leafAt, Span.sized, Shape.tokens, widthOf_singleton, Token.width]
    omega

theorem reached_mono (h : tree.Houses whole) {i j : Nat} (hij : i ≤ j) (hj : j ≤ tree.leafCount) :
    tree.reached i ≤ tree.reached j := by
  induction j with
  | zero => rw [Nat.le_zero.mp hij]
  | succ j ih =>
    rcases Nat.le_succ_iff.mp hij with hle | rfl
    · obtain ⟨hstart, hspan, hstop⟩ := h.leaf_within (show j < tree.leafCount from hj)
      exact Nat.le_trans (ih hle (Nat.le_of_succ_le hj))
        (Nat.le_trans hstart (Nat.le_trans hspan hstop))
    · exact Nat.le_refl _

/-- Tokens come one behind the other. -/
theorem stop_le_start (h : tree.Houses whole) {i j : Nat} (hij : i < j) (hj : j < tree.leafCount) :
    (tree.leaf i).span.stop ≤ (tree.leaf j).span.start :=
  calc (tree.leaf i).span.stop
    _ ≤ tree.reached (i + 1) := (h.leaf_within (Nat.lt_trans hij hj)).2.2
    _ ≤ tree.reached j := h.reached_mono hij (Nat.le_of_lt hj)
    _ ≤ (tree.leaf j).span.start := (h.leaf_within hj).1

/-- An element spans what its tokens reach. -/
theorem elementSpan_eq (h : tree.Houses whole) {element : Element} (he : tree.Has element) :
    tree.elementSpan element = ⟨tree.reached (tree.tokenRun element).first,
      tree.reached ((tree.tokenRun element).first + (tree.tokenRun element).count)⟩ := by
  obtain ⟨home, shape, site, hpart, rfl⟩ := h.exists_part element he
  have hsits := hpart.sits h.sits
  have hoffset := hpart.reached h.sits
  have hpast := Shape.Sits.reached site hsits hoffset
  rw [hsits.elementSpan_element, hsits.tokenRun_element, Span.sized, ← hoffset]
  exact congrArg (Span.mk site.offset) hpast

/-- The way down stays below a node that it has come by. -/
theorem mem_ancestors_around (h : tree.Houses whole) {id below : NodeId}
    (hbelow : below < tree.nodeCount) (hmem : id ∈ tree.ancestors below) (span : Span)
    (limit : Nat) : tree.around (tree.coveringUpTo below span limit) < tree.nodeCount ∧
      id ∈ tree.ancestors (tree.around (tree.coveringUpTo below span limit)) := by
  induction limit generalizing below with
  | zero => exact ⟨hbelow, hmem⟩
  | succ limit ih =>
    rw [coveringUpTo]
    cases hchild : tree.coveringChild? below span with
    | none => exact ⟨hbelow, hmem⟩
    | some element =>
      obtain ⟨hhas, hhome, -⟩ := h.of_mem_elements hbelow (List.mem_of_find?_eq_some hchild)
      cases element with
      | token token =>
        obtain rfl := Option.some.inj hhome
        exact ⟨hbelow, hmem⟩
      | node child => exact ih hhas ((h.mem_ancestors hhas).mpr (Or.inr ⟨below, hhome, hmem⟩))

end Tree.Houses

structure Tree.Ends (tree : Tree) (id : NodeId) (first last : Nat) : Prop where
  le : first ≤ last
  lt : last < tree.leafCount
  run : (tree.node id).tokens = ⟨first, last + 1 - first⟩

namespace Tree.Ends

variable {tree : Tree} {whole : Shape} {id above : NodeId} {first last first' last' : Nat}

theorem mem_tokensBelow (h : tree.Ends id first last) {token : Nat} :
    token ∈ tree.tokensBelow id ↔ first ≤ token ∧ token ≤ last := by
  have hle := h.le
  rw [tokensBelow, h.run, Run.positions, List.mem_range'_1]
  show first ≤ token ∧ token < first + (last + 1 - first) ↔ _
  omega

theorem trimmedSpan_eq (h : tree.Ends id first last) :
    tree.trimmedSpan id = ⟨(tree.leaf first).span.start, (tree.leaf last).span.stop⟩ := by
  have hle := h.le
  have hne : last + 1 - first ≠ 0 := by omega
  have hlast : first + (last + 1 - first) - 1 = last := by omega
  simp only [trimmedSpan, firstToken?, lastToken?, h.run, if_neg hne, Span.through, hlast]

/-- The tokens of a node are among those of its ancestors. -/
theorem within (h : tree.Ends id first last) (h' : tree.Ends above first' last')
    (hhouses : tree.Houses whole) (hid : id < tree.nodeCount)
    (habove : above ∈ tree.ancestors id) : first' ≤ first ∧ last ≤ last' := by
  have hbelow {token : Nat} (htoken : first ≤ token ∧ token ≤ last) :
      first' ≤ token ∧ token ≤ last' :=
    h'.mem_tokensBelow.mp (hhouses.mem_tokensBelow_of_mem_ancestors hid
      (h.mem_tokensBelow.mpr htoken) habove)
  exact ⟨(hbelow ⟨Nat.le_refl _, h.le⟩).1, (hbelow ⟨h.le, Nat.le_refl _⟩).2⟩

theorem elementSpan_eq (h : tree.Ends id first last) (hhouses : tree.Houses whole)
    (hid : id < tree.nodeCount) :
    tree.elementSpan (.node id) = ⟨tree.reached first, tree.reached (last + 1)⟩ := by
  have hle := h.le
  have hstop : first + (last + 1 - first) = last + 1 := by omega
  rw [hhouses.elementSpan_eq (show tree.Has (.node id) from hid), tokenRun, h.run, hstop]

end Tree.Ends

namespace Tree.Discerned

variable {tree : Tree} {whole : Shape} {rank : Kind → Nat} {id above : NodeId}

theorem exists_ends (hd : tree.Discerned rank) (h : tree.Houses whole) (hid : id < tree.nodeCount) :
    ∃ first last, tree.Ends id first last := by
  have hfull := hd.full id hid
  generalize hrun : (tree.node id).tokens = run at hfull
  have hlast : run.first + run.count - 1 ∈ tree.tokensBelow id := by
    rw [tokensBelow, hrun]
    exact List.mem_range'_1.mpr ⟨by omega, by omega⟩
  have hlt := ((h.mem_tokensBelow_iff hid _).mp hlast).1
  refine ⟨run.first, run.first + run.count - 1, by omega, hlt, ?_⟩
  rw [hrun]
  exact congrArg (Run.mk run.first) (by omega)

/-- The first child around the span of a node is the one on the way to it. -/
theorem coveringChild?_eq (hd : tree.Discerned rank) (h : tree.Houses whole)
    (hid : id < tree.nodeCount) (hne : id ≠ root) {child : NodeId}
    (hchild : child ∈ tree.ancestors id) (hparent : tree.parent? child = some above) :
    tree.coveringChild? above (tree.trimmedSpan id) = some (.node child) := by
  have hcount : child < tree.nodeCount := Nat.lt_of_le_of_lt (h.le_of_mem_ancestors hid hchild) hid
  obtain ⟨habove, hlisted⟩ := h.mem_elements_of_home (.node child) hcount hparent
  obtain ⟨first, last, hends⟩ := hd.exists_ends h hid
  obtain ⟨first', last', hends'⟩ := hd.exists_ends h hcount
  obtain ⟨hfirst, hlast⟩ := hends.within hends' h hid hchild
  have hle := hends.le
  have hlt := hends.lt
  have hlt' := hends'.lt
  have hsolid := hd.solid id hid hne last (hends.mem_tokensBelow.mpr ⟨hle, Nat.le_refl _⟩)
  -- what the tokens in front of the child reach lies in front of the node
  have hstart : tree.reached first' ≤ (tree.leaf first).span.start :=
    Nat.le_trans (h.reached_mono hfirst (by omega))
      (h.leaf_within (Nat.lt_of_le_of_lt hle hlt)).1
  have hstop : (tree.leaf last).span.stop ≤ tree.reached (last' + 1) :=
    Nat.le_trans (h.leaf_within hlt).2.2 (h.reached_mono (by omega) hlt')
  have hspan : (tree.leaf first).span.start < (tree.leaf last).span.stop := by
    rcases Nat.eq_or_lt_of_le hle with rfl | hlt''
    · exact hsolid
    · have hsolid' := hd.solid id hid hne first (hends.mem_tokensBelow.mpr ⟨Nat.le_refl _, hle⟩)
      have hnext := h.stop_le_start hlt'' hlt
      omega
  obtain ⟨before, after, hsplit⟩ := List.append_of_mem hlisted
  rw [coveringChild?, List.find?_eq_some_iff_append, hends.trimmedSpan_eq]
  refine ⟨?_, before, after, hsplit, fun element hmem => ?_⟩
  · rw [hends'.elementSpan_eq h hcount]
    simp only [Span.covers, Bool.and_eq_true, decide_eq_true_iff]
    exact ⟨hstart, hstop⟩
  · -- an element in front of the child ends before the node starts
    have hpairwise := h.pairwise_precedes habove
    have hhas := (h.of_mem_elements habove (hsplit ▸ List.mem_append_left _ hmem)).1
    rw [hsplit] at hpairwise
    have hprecedes := ((List.pairwise_append.mp hpairwise).2.2 element hmem _ List.mem_cons_self).1
    rw [tokenRun, hends'.run] at hprecedes
    change _ ≤ first' at hprecedes
    have hreached := h.reached_mono hprecedes (by omega)
    rw [h.elementSpan_eq hhas]
    simp only [Span.covers, Bool.not_eq_true', Bool.and_eq_false_iff, decide_eq_false_iff_not]
    exact Or.inr (by omega)

/-- The way down to the span of a node comes by the node. -/
theorem mem_ancestors_covering (hd : tree.Discerned rank) (h : tree.Houses whole)
    (hid : id < tree.nodeCount) (habove : above ∈ tree.ancestors id) {limit : Nat}
    (hlimit : tree.nodeCount ≤ above + limit) :
    tree.around (tree.coveringUpTo above (tree.trimmedSpan id) limit) < tree.nodeCount ∧
      id ∈ tree.ancestors (tree.around (tree.coveringUpTo above (tree.trimmedSpan id) limit)) := by
  -- each step goes to a node with a larger number, so the limit is not reached
  induction limit generalizing above with
  | zero =>
    have hle := h.le_of_mem_ancestors hid habove
    exact absurd (Nat.lt_of_le_of_lt hle hid) (Nat.not_lt.mpr hlimit)
  | succ limit ih =>
    by_cases heq : above = id
    · subst heq
      exact h.mem_ancestors_around hid habove _ _
    · obtain ⟨child, hchild, hparent⟩ := h.exists_child_toward hid habove heq
      have hcount := Nat.lt_of_le_of_lt (h.le_of_mem_ancestors hid hchild) hid
      have hlt := h.parent_lt hcount hparent
      have hroot : id ≠ root := by
        rintro rfl
        exact heq (Nat.le_zero.mp (h.le_of_mem_ancestors hid habove))
      rw [coveringUpTo, hd.coveringChild?_eq h hid hroot hchild hparent]
      exact ih hchild (Nat.le_trans hlimit (Nat.add_right_comm above 1 limit ▸
        Nat.add_le_add_right hlt limit))

/-- A child that has all tokens of a node is all that the node has. -/
theorem elements_eq (hd : tree.Discerned rank) (h : tree.Houses whole) {child : NodeId}
    (hid : id < tree.nodeCount) (hchild : .node child ∈ tree.elements id)
    (hrun : (tree.node child).tokens = (tree.node id).tokens) :
    tree.elements id = [.node child] := by
  -- every element has a token, which is one of the child
  have hown : ∀ element ∈ tree.elements id, 0 < (tree.tokenRun element).count ∧
      (tree.tokenRun (.node child)).first ≤ (tree.tokenRun element).first ∧
      (tree.tokenRun element).first <
        (tree.tokenRun (.node child)).first + (tree.tokenRun (.node child)).count := by
    intro element hmem
    have hcount : 0 < (tree.tokenRun element).count := by
      cases element with
      | token token => exact Nat.one_pos
      | node other => exact hd.full other (h.of_mem_elements hid hmem).1
    have hbelow := (h.mem_tokensBelow hid).mpr ⟨element, hmem,
      List.mem_range'_1.mpr ⟨Nat.le_refl _, Nat.lt_add_of_pos_right hcount⟩⟩
    rw [tokensBelow, ← hrun] at hbelow
    exact ⟨hcount, List.mem_range'_1.mp hbelow⟩
  obtain ⟨before, after, hsplit⟩ := List.append_of_mem hchild
  have hpairwise := h.pairwise_precedes hid
  rw [hsplit] at hown hpairwise ⊢
  obtain ⟨-, hbehind, hbefore⟩ := List.pairwise_append.mp hpairwise
  have hnone : before = [] := by
    refine List.eq_nil_iff_forall_not_mem.mpr fun element hmem => ?_
    have hprecedes := (hbefore element hmem _ List.mem_cons_self).1
    obtain ⟨hcount, hge, -⟩ := hown element (List.mem_append_left _ hmem)
    omega
  have hnone' : after = [] := by
    refine List.eq_nil_iff_forall_not_mem.mpr fun element hmem => ?_
    have hprecedes := ((List.pairwise_cons.mp hbehind).1 element hmem).1
    obtain ⟨-, -, hlt⟩ := hown element (List.mem_append_right _ (List.mem_cons_of_mem _ hmem))
    omega
  rw [hnone, hnone', List.nil_append]

/-- What lies between two nodes with the same tokens has these tokens, too. -/
theorem run_between (hd : tree.Discerned rank) (h : tree.Houses whole) {parent : NodeId}
    (hid : id < tree.nodeCount) (hparent : tree.parent? id = some parent)
    (habove : above ∈ tree.ancestors parent)
    (hrun : (tree.node id).tokens = (tree.node above).tokens) :
    (tree.node parent).tokens = (tree.node above).tokens := by
  obtain ⟨hlt, -⟩ := h.mem_elements_of_home (.node id) hid hparent
  have hcount : above < tree.nodeCount :=
    Nat.lt_of_le_of_lt (h.le_of_mem_ancestors hlt habove) hlt
  have hmem : parent ∈ tree.ancestors id :=
    (h.mem_ancestors hid).mpr (Or.inr ⟨parent, hparent, h.mem_ancestors_self hlt⟩)
  obtain ⟨first, last, hends⟩ := hd.exists_ends h hid
  obtain ⟨first', last', hends'⟩ := hd.exists_ends h hlt
  obtain ⟨first'', last'', hends''⟩ := hd.exists_ends h hcount
  obtain ⟨hfirst, hlast⟩ := hends.within hends' h hid hmem
  obtain ⟨hfirst', hlast'⟩ := hends'.within hends'' h hlt habove
  rw [hends.run, hends''.run, Run.mk.injEq] at hrun
  rw [hends'.run, hends''.run, Run.mk.injEq]
  have hle := hends.le
  have hle'' := hends''.le
  omega

/-- Below a node inside the root, a node with the same tokens is of a lower rank. -/
theorem rank_lt (hd : tree.Discerned rank) (h : tree.Houses whole) (hid : id < tree.nodeCount)
    (habove : above ∈ tree.ancestors id) (hne : above ≠ id) (hroot : above ≠ root)
    (hrun : (tree.node id).tokens = (tree.node above).tokens) :
    rank (tree.kind id) < rank (tree.kind above) := by
  -- up from node to node; all of them have the same tokens
  induction id using Nat.strong_induction_on with
  | _ id ih =>
    obtain ⟨parent, hparent, hmem⟩ := ((h.mem_ancestors hid).mp habove).resolve_left hne
    obtain ⟨hlt, hlisted⟩ := h.mem_elements_of_home (.node id) hid hparent
    have hbefore := h.parent_lt hid hparent
    have hroot' : parent ≠ root := by
      rintro rfl
      exact hroot (Nat.le_zero.mp (h.le_of_mem_ancestors hlt hmem))
    have hrun' : (tree.node parent).tokens = (tree.node above).tokens :=
      hd.run_between h hid hparent hmem hrun
    have hsole := hd.sole parent hlt hroot' id
      (hd.elements_eq h hlt hlisted (hrun.trans hrun'.symm))
    by_cases heq : above = parent
    · exact heq ▸ hsole
    · exact Nat.lt_trans hsole (ih parent hbefore hlt hmem heq hrun')

/-- Below a node inside the root, a node with the same span has the same tokens. -/
theorem run_eq (hd : tree.Discerned rank) (h : tree.Houses whole) (hid : id < tree.nodeCount)
    (habove : above ∈ tree.ancestors id) (hroot : above ≠ root)
    (hspan : tree.trimmedSpan id = tree.trimmedSpan above) :
    (tree.node id).tokens = (tree.node above).tokens := by
  have hcount : above < tree.nodeCount :=
    Nat.lt_of_le_of_lt (h.le_of_mem_ancestors hid habove) hid
  obtain ⟨first, last, hends⟩ := hd.exists_ends h hid
  obtain ⟨first', last', hends'⟩ := hd.exists_ends h hcount
  obtain ⟨hfirst, hlast⟩ := hends.within hends' h hid habove
  have hle := hends.le
  have hlt := hends'.lt
  rw [hends.trimmedSpan_eq, hends'.trimmedSpan_eq, Span.mk.injEq] at hspan
  -- a token between the two starts or the two stops would have no characters
  have hfirst' : first = first' := by
    by_contra hne
    have hsolid := hd.solid above hcount hroot first'
      (hends'.mem_tokensBelow.mpr ⟨Nat.le_refl _, hends'.le⟩)
    have hnext := h.stop_le_start (show first' < first by omega) (by omega)
    omega
  have hlast' : last = last' := by
    by_contra hne
    have hsolid := hd.solid above hcount hroot last'
      (hends'.mem_tokensBelow.mpr ⟨hends'.le, Nat.le_refl _⟩)
    have hnext := h.stop_le_start (show last < last' by omega) hlt
    omega
  rw [hends.run, hends'.run, hfirst', hlast']

/-- Below a node there is no other one of its kind with its span. -/
theorem eq_of_alike (hd : tree.Discerned rank) (h : tree.Houses whole) (hid : id < tree.nodeCount)
    (habove : above ∈ tree.ancestors id) (hkind : tree.kind id = tree.kind above)
    (hspan : tree.trimmedSpan id = tree.trimmedSpan above) : above = id := by
  by_contra hne
  by_cases hroot : above = root
  · subst hroot
    exact hd.inner id hid (Ne.symm hne) hkind
  · have hrank := hd.rank_lt h hid habove hne hroot (hd.run_eq h hid habove hroot hspan)
    rw [hkind] at hrank
    exact Nat.lt_irrefl _ hrank

/-- The way up from below a node finds the node. -/
theorem find?_ancestors (hd : tree.Discerned rank) (h : tree.Houses whole)
    (hid : id < tree.nodeCount) (habove : above ∈ tree.ancestors id) :
    (tree.ancestors id).find? (fun other =>
      tree.kind other == tree.kind above && tree.trimmedSpan other == tree.trimmedSpan above) =
        some above := by
  induction id using Nat.strong_induction_on with
  | _ id ih =>
    by_cases heq : above = id
    · subst heq
      rw [h.ancestors_eq hid, List.find?_cons_of_pos (by simp)]
    · obtain ⟨parent, hparent, hmem⟩ := ((h.mem_ancestors hid).mp habove).resolve_left heq
      have hlt := h.parent_lt hid hparent
      rw [h.ancestors_eq hid, hparent, List.find?_cons_of_neg]
      · exact ih parent hlt (Nat.lt_trans hlt hid) hmem
      · intro hmatch
        rw [Bool.and_eq_true, beq_iff_eq, beq_iff_eq] at hmatch
        exact heq (hd.eq_of_alike h hid habove hmatch.1 hmatch.2)

/-- A node is found again by its kind and its span. -/
theorem resolve?_ofNode (hd : tree.Discerned rank) (h : tree.Houses whole)
    (hid : id < tree.nodeCount) : (NodePointer.ofNode tree id).resolve? tree root = some id := by
  have hnone := h.root_lt.2
  obtain ⟨hlt, hbelow⟩ := hd.mem_ancestors_covering h hid (h.root_mem_ancestors hid)
    (show tree.nodeCount ≤ 0 + tree.nodeCount by omega)
  rw [NodePointer.resolve?, hnone]
  exact hd.find?_ancestors h hlt hbelow

end Tree.Discerned

end ScriptTree

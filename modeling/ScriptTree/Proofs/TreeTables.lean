import Mathlib.Data.List.Nodup
import ScriptTree.Proofs.Tree.Compact
import ScriptTree.Proofs.Tree.Family
import ScriptTree.Proofs.Tree.Walk

/-!
The tables of a tree. Whatever steps build a tree, its tables agree with each other and with the
steps: every element has one parent that lists it once, nodes are numbered in preorder, spans and
intervals of tokens are made up of those of the children, and a walk repeats the steps. Steps that
would need numbers of more than 32 bits build no tree.
-/

namespace ScriptTree

/-- The tables of a tree agree with each other. -/
structure Tree.WellFormed (tree : Tree) : Prop where
  rooted : root < tree.nodeCount ∧ tree.parent? root = none
  preorder : tree.descendants root = List.range tree.nodeCount
  listed : ∀ element, tree.Has element → element ≠ .node root →
    ∃ home < tree.nodeCount, tree.home? element = some home ∧
      (tree.elements home).count element = 1
  housed : ∀ id < tree.nodeCount, ∀ element ∈ tree.elements id,
    tree.Has element ∧ tree.home? element = some id
  ordered : ∀ id < tree.nodeCount, (tree.elements id).Pairwise tree.Precedes
  fits : ∀ id < tree.nodeCount,
    (tree.node id).children.first + (tree.node id).children.count ≤ tree.children.size
  disjoint : ∀ id < tree.nodeCount, ∀ id' < tree.nodeCount, id ≠ id' →
    (tree.node id).children.positions.Disjoint (tree.node id').children.positions
  below : ∀ id < tree.nodeCount, ∀ token, token ∈ tree.tokensBelow id ↔
    token < tree.leafCount ∧ id ∈ tree.ancestors (tree.leaf token).parent
  abut : ∀ id < tree.nodeCount,
    tree.Abut (tree.nodeSpan id).start (tree.elements id) (tree.nodeSpan id).stop
  placed : ∀ id < tree.nodeCount,
    (tree.nodeSpan id).start = tree.reached (tree.node id).tokens.first
  covered : tree.nodeSpan root = ⟨0, tree.text.utf8ByteSize⟩

namespace Tree.Houses

variable {tree : Tree} {whole : Shape}

theorem descendants_root (h : tree.Houses whole) :
    tree.descendants root = List.range tree.nodeCount := by
  obtain ⟨kind, field, children, rfl⟩ := h.exists_whole
  have hvisits := h.visitsSkipping_eq .whole fun _ => false
  have hentered := Shape.filterMap_entered_visits (.node kind field children) Site.front
  rw [← hvisits, ← h.nodes, Site.front, ← List.range_eq_range'] at hentered
  exact hentered

/-- The tables of a tree that houses its shape agree with each other, since all of them follow the
shape. -/
theorem wellFormed (h : tree.Houses whole) : tree.WellFormed where
  rooted := h.root_lt
  preorder := h.descendants_root
  listed element he hne := by
    obtain ⟨home, hhome⟩ := h.exists_home he hne
    obtain ⟨hlt, hmem⟩ := h.mem_elements_of_home element he hhome
    exact ⟨home, hlt, hhome, List.count_eq_one_of_mem (h.nodup_elements hlt) hmem⟩
  housed id hid element hmem := by
    obtain ⟨hhas, hhome, -⟩ := h.of_mem_elements hid hmem
    exact ⟨hhas, hhome⟩
  ordered _ hid := h.pairwise_precedes hid
  fits _ hid := h.children_fit hid
  disjoint _ hid _ hid' hne := h.disjoint_positions hid hid' hne
  below _ hid := h.mem_tokensBelow_iff hid
  abut _ hid := (h.abut hid).1
  placed _ hid := (h.abut hid).2
  covered := h.nodeSpan_root

/-- A full walk from the root repeats the steps of the whole. -/
theorem visits_root (h : tree.Houses whole) :
    tree.visits root = BuildStep.reports [] 0 0 whole.steps ∧
      (tree.visits root).map tree.stepOf = whole.steps := by
  obtain ⟨kind, field, children, rfl⟩ := h.exists_whole
  have hvisits := h.visitsSkipping_eq .whole fun _ => false
  have hreports := Shape.visits_eq_reports (.node kind field children) Site.front [] []
  rw [List.append_nil, BuildStep.reports, List.append_nil, ← hvisits] at hreports
  refine ⟨hreports.symm, ?_⟩
  have hsteps := Shape.Sits.map_stepOf h.sits
  rwa [← hvisits] at hsteps

end Tree.Houses

end ScriptTree

import ScriptTree.Proofs.Tree.Family
import ScriptTree.Proofs.Tree.Walk

/-!
Walks that skip. A walk that skips some of the nodes that it enters makes the reports of the full
walk but for those inside the skipped nodes and those of leaving them. It always ends, and it is
never told to skip where there is nothing to skip. A walk over the nodes only makes the reports of
the walk with tokens but for those of tokens, whatever is skipped.
-/

namespace ScriptTree

def Visit.isNode : Visit → Bool
  | .enter _ => true
  | .leave _ => true
  | .token _ => false

/-- Reports without those from inside the chosen nodes and those of leaving them. Within a chosen
node nothing is reported up to the report of leaving it. -/
def Visit.prune (skips : NodeId → Bool) : Option NodeId → List Visit → List Visit
  | _, [] => []
  | none, .enter node :: rest =>
    .enter node :: prune skips (if skips node then some node else none) rest
  | none, visit :: rest => visit :: prune skips none rest
  | some node, visit :: rest =>
    if visit = .leave node then prune skips none rest else prune skips (some node) rest

/-- A walk that takes its steps by `next?` makes some reports and ends. Right after it enters a
chosen node, the rest of the node is skipped, and there always is something to skip then. -/
inductive Walk.Yields (next? : Walk → Option (Visit × Walk)) (skips : NodeId → Bool) :
    Walk → List Visit → Prop where
  | done {walk : Walk} (stops : next? walk = none) : Yields next? skips walk []
  | skip {walk inside after : Walk} {node : NodeId} {visits : List Visit}
      (step : next? walk = some (.enter node, inside)) (chosen : skips node = true)
      (skipped : inside.skipSubtree? = some after) (rest : Yields next? skips after visits) :
      Yields next? skips walk (.enter node :: visits)
  | pass {walk after : Walk} {visit : Visit} {visits : List Visit}
      (step : next? walk = some (visit, after))
      (unchosen : ∀ node, visit = .enter node → skips node = false)
      (rest : Yields next? skips after visits) : Yields next? skips walk (visit :: visits)

/-- From a node, the walks with and without tokens that skip the chosen nodes end, and their reports
are those of the full walks without what is inside the chosen nodes. -/
structure Tree.PrunesWalks (tree : Tree) (start : NodeId) (skips : NodeId → Bool) : Prop where
  ends : Walk.Yields (Walk.next? tree) skips (.beginAt start) (tree.visitsSkipping start skips)
  nodesEnd :
    Walk.Yields (Walk.nextNode? tree) skips (.beginAt start) (tree.nodeVisitsSkipping start skips)
  pruned : tree.visitsSkipping start skips = Visit.prune skips none (tree.visits start)
  nodesPruned : tree.nodeVisitsSkipping start skips = Visit.prune skips none (tree.nodeVisits start)
  nodesOnly : tree.nodeVisitsSkipping start skips =
    (tree.visitsSkipping start skips).filter Visit.isNode

namespace Visit

variable {skips : NodeId → Bool} {node : NodeId}

/-- Up to the report of leaving it, nothing is reported within a chosen node. -/
theorem prune_within {inner rest : List Visit} (h : .leave node ∉ inner) :
    prune skips (some node) (inner ++ .leave node :: rest) = prune skips none rest := by
  induction inner with
  | nil => simp [prune]
  | cons visit inner ih =>
    obtain ⟨hne, hinner⟩ := not_or.mp (mt List.mem_cons.mpr h)
    rw [List.cons_append, prune, if_neg (Ne.symm hne), ih hinner]

/-- Tokens neither start nor end what is left out. -/
theorem filter_prune (within : Option NodeId) (visits : List Visit) :
    (prune skips within visits).filter isNode = prune skips within (visits.filter isNode) := by
  induction visits generalizing within with
  | nil => cases within <;> rfl
  | cons visit rest ih =>
    cases within with
    | none => cases visit <;> simp [prune, List.filter_cons, isNode, ih]
    | some node =>
      cases visit with
      | token token => simp [prune, isNode, ih]
      | enter entered => simp [prune, List.filter_cons, isNode, ih]
      | leave left =>
        by_cases hleft : left = node <;> simp [prune, List.filter_cons, isNode, ih, hleft]

end Visit

namespace Shape

mutual

/-- A walk through a shape leaves only nodes that are numbered from its place on. -/
theorem le_of_leave_mem (skips : NodeId → Bool) {node : NodeId} : ∀ (shape : Shape) (site : Site),
    .leave node ∈ shape.visits skips site → site.node ≤ node
  | .leaf token field, site, h => by simp [visits] at h
  | .node kind field children, site, h => by
    rw [visits] at h
    rcases List.mem_cons.mp h with h | h
    · cases h
    split at h
    · cases h
    rcases List.mem_append.mp h with h | h
    · exact Nat.le_of_succ_le (le_of_leave_memAll skips children site.inside h)
    · obtain rfl := Visit.leave.inj (List.mem_singleton.mp h)
      exact Nat.le_refl _

/-- So does a walk through shapes side by side. -/
theorem le_of_leave_memAll (skips : NodeId → Bool) {node : NodeId} :
    ∀ (shapes : List Shape) (site : Site),
    .leave node ∈ visitsAll skips shapes site → site.node ≤ node
  | [], site, h => by simp [visitsAll] at h
  | shape :: rest, site, h => by
    rw [visitsAll] at h
    rcases List.mem_append.mp h with h | h
    · exact le_of_leave_mem skips shape site h
    · exact Nat.le_trans (Nat.le_add_right _ _) (le_of_leave_memAll skips rest (site.past shape) h)

end

/-- The report of leaving a node is not among those from inside it. -/
theorem leave_not_mem (skips : NodeId → Bool) (children : List Shape) (site : Site) :
    .leave site.node ∉ visitsAll skips children site.inside :=
  fun h => Nat.not_succ_le_self _ (le_of_leave_memAll skips children site.inside h)

mutual

/-- A walk that skips chosen nodes makes the reports of the full walk but for those from inside the
chosen nodes. -/
theorem prune_visits (skips : NodeId → Bool) : ∀ (shape : Shape) (site : Site) (more : List Visit),
    Visit.prune skips none (shape.visits (fun _ => false) site ++ more) =
      shape.visits skips site ++ Visit.prune skips none more
  | .leaf token field, site, more => by simp [visits, Visit.prune]
  | .node kind field children, site, more => by
    rw [visits, visits, if_neg Bool.false_ne_true, List.cons_append, List.append_assoc, Visit.prune,
      List.singleton_append]
    cases hskips : skips site.node with
    | true =>
      rw [if_pos rfl, if_pos rfl, Visit.prune_within (leave_not_mem _ children site)]
      rfl
    | false =>
      rw [if_neg Bool.false_ne_true, if_neg Bool.false_ne_true, prune_visitsAll skips children]
      simp [Visit.prune]

/-- So it does for shapes side by side. -/
theorem prune_visitsAll (skips : NodeId → Bool) : ∀ (shapes : List Shape) (site : Site)
    (more : List Visit),
    Visit.prune skips none (visitsAll (fun _ => false) shapes site ++ more) =
      visitsAll skips shapes site ++ Visit.prune skips none more
  | [], site, more => by simp [visitsAll]
  | shape :: rest, site, more => by
    rw [visitsAll, visitsAll, List.append_assoc, prune_visits skips shape,
      prune_visitsAll skips rest, List.append_assoc]

end

end Shape

namespace Walk

variable {tree : Tree} {skips : NodeId → Bool} {walk inside : Walk} {node : NodeId}

/-- A node that was just entered can be skipped. -/
theorem exists_skipSubtree? (h : walk.next? tree = some (.enter node, inside)) :
    ∃ after, inside.skipSubtree? = some after := by
  obtain ⟨pending, opened⟩ := walk
  match opened with
  | [] =>
    obtain ⟨start, -, heq⟩ := Option.map_eq_some_iff.mp h
    obtain ⟨-, rfl⟩ := Prod.mk.inj heq
    exact ⟨_, rfl⟩
  | (_, []) :: _ => cases h
  | (_, .token _ :: _) :: _ => cases h
  | (_, .node _ :: _) :: _ =>
    obtain ⟨-, rfl⟩ := Prod.mk.inj (Option.some.inj h)
    exact ⟨_, rfl⟩

/-- A walk that makes fewer reports than it may has ended. -/
theorem yields_visitsUpTo {limit : Nat} (h : (visitsUpTo tree skips walk limit).length < limit) :
    Yields (next? tree) skips walk (visitsUpTo tree skips walk limit) := by
  induction limit generalizing walk with
  | zero => cases h
  | succ limit ih =>
    rw [visitsUpTo] at h ⊢
    cases hnext : walk.next? tree with
    | none => exact .done hnext
    | some report =>
      obtain ⟨visit, after⟩ := report
      rw [hnext] at h
      cases visit with
      | enter node =>
        cases hskips : skips node with
        | true =>
          obtain ⟨rest, hrest⟩ := exists_skipSubtree? hnext
          simp only [hskips, if_true, hrest, Option.getD_some] at h ⊢
          exact .skip hnext hskips hrest (ih (Nat.lt_of_succ_lt_succ h))
        | false =>
          simp only [hskips, Bool.false_eq_true, if_false] at h ⊢
          refine .pass hnext (fun other hother => ?_) (ih (Nat.lt_of_succ_lt_succ h))
          obtain rfl := Visit.enter.inj hother
          exact hskips
      | leave node => exact .pass hnext nofun (ih (Nat.lt_of_succ_lt_succ h))
      | token token => exact .pass hnext nofun (ih (Nat.lt_of_succ_lt_succ h))

theorem nextNode?_of_token {after : Walk} {token : TokenId}
    (h : walk.next? tree = some (.token token, after)) :
    walk.nextNode? tree = after.nextNode? tree := by
  rw [nextNode?]
  split
  · next heq =>
    obtain ⟨-, rfl⟩ := Prod.mk.inj (Option.some.inj (heq.symm.trans h))
    rfl
  · next hnone => exact absurd h (hnone token after)

theorem nextNode?_eq {report : Option (Visit × Walk)} (h : walk.next? tree = report)
    (hreport : ∀ token after, report ≠ some (.token token, after)) :
    walk.nextNode? tree = report := by
  rw [nextNode?]
  split
  · next token after heq => exact absurd (h.symm.trans heq) (hreport token after)
  · exact h

namespace Yields

variable {visits : List Visit}

/-- What a walk yields depends only on its steps from the next one on. -/
theorem of_next?_eq {next? : Walk → Option (Visit × Walk)} {after : Walk}
    (h : Yields next? skips after visits) (hnext : next? walk = next? after) :
    Yields next? skips walk visits := by
  cases h with
  | done stops => exact .done (hnext.trans stops)
  | skip step chosen skipped rest => exact .skip (hnext.trans step) chosen skipped rest
  | pass step unchosen rest => exact .pass (hnext.trans step) unchosen rest

/-- A walk over the nodes only makes the reports about nodes. -/
theorem nodes (h : Yields (next? tree) skips walk visits) :
    Yields (nextNode? tree) skips walk (visits.filter Visit.isNode) := by
  induction h with
  | done stops => exact .done (nextNode?_eq stops nofun)
  | skip step chosen skipped rest ih => exact .skip (nextNode?_eq step nofun) chosen skipped ih
  | @pass walk after visit visits step unchosen rest ih =>
    cases visit with
    | token token => exact ih.of_next?_eq (nextNode?_of_token step)
    | enter node => exact .pass (nextNode?_eq step nofun) unchosen ih
    | leave node => exact .pass (nextNode?_eq step nofun) unchosen ih

/-- A walk over the nodes makes all its reports, if it may make as many. -/
theorem nodeVisitsUpTo_eq (h : Yields (nextNode? tree) skips walk visits) {limit : Nat}
    (hlimit : visits.length ≤ limit) : nodeVisitsUpTo tree skips walk limit = visits := by
  induction h generalizing limit with
  | done stops =>
    cases limit with
    | zero => rfl
    | succ limit => rw [nodeVisitsUpTo, stops]
  | skip step chosen skipped rest ih =>
    cases limit with
    | zero => cases hlimit
    | succ limit =>
      simp [nodeVisitsUpTo, step, chosen, skipped, ih (Nat.le_of_succ_le_succ hlimit)]
  | @pass walk after visit visits step unchosen rest ih =>
    cases limit with
    | zero => cases hlimit
    | succ limit =>
      have hrest := ih (Nat.le_of_succ_le_succ hlimit)
      cases visit with
      | token token => simp [nodeVisitsUpTo, step, hrest]
      | leave node => simp [nodeVisitsUpTo, step, hrest]
      | enter node => simp [nodeVisitsUpTo, step, unchosen node rfl, hrest]

end Yields

end Walk

namespace Tree.Houses

variable {tree : Tree} {whole : Shape}

/-- From every node, the walk that skips chosen nodes ends. -/
theorem yields_visitsSkipping (h : tree.Houses whole) {start : NodeId}
    (hstart : start < tree.nodeCount) (skips : NodeId → Bool) :
    Walk.Yields (Walk.next? tree) skips (.beginAt start) (tree.visitsSkipping start skips) := by
  obtain ⟨home, kind, field, children, site, hpart, rfl⟩ := h.exists_node hstart
  -- one more report than the walk has shows that it ends
  have hspare := h.visitsUpTo_eq hpart skips (Nat.le_succ _)
  rw [h.visitsSkipping_eq hpart skips, ← hspare]
  refine Walk.yields_visitsUpTo ?_
  rw [hspare]
  exact Nat.lt_succ_self _

theorem length_visitsSkipping_le (h : tree.Houses whole) {start : NodeId}
    (hstart : start < tree.nodeCount) (skips : NodeId → Bool) :
    (tree.visitsSkipping start skips).length ≤ 2 * tree.nodeCount + tree.leafCount := by
  obtain ⟨home, kind, field, children, site, hpart, rfl⟩ := h.exists_node hstart
  rw [h.visitsSkipping_eq hpart skips]
  exact h.length_visits_le hpart skips

/-- The walk over the nodes makes the reports about nodes. -/
theorem nodeVisitsSkipping_eq (h : tree.Houses whole) {start : NodeId}
    (hstart : start < tree.nodeCount) (skips : NodeId → Bool) :
    tree.nodeVisitsSkipping start skips = (tree.visitsSkipping start skips).filter Visit.isNode :=
  (h.yields_visitsSkipping hstart skips).nodes.nodeVisitsUpTo_eq
    (Nat.le_trans (List.length_filter_le _ _) (h.length_visitsSkipping_le hstart skips))

/-- The walk that skips chosen nodes makes the reports of the full walk but for those from inside
these nodes. -/
theorem visitsSkipping_eq_prune (h : tree.Houses whole) {start : NodeId}
    (hstart : start < tree.nodeCount) (skips : NodeId → Bool) :
    tree.visitsSkipping start skips = Visit.prune skips none (tree.visits start) := by
  obtain ⟨home, kind, field, children, site, hpart, rfl⟩ := h.exists_node hstart
  have hprune := Shape.prune_visits skips (.node kind field children) site []
  rw [List.append_nil, Visit.prune, List.append_nil] at hprune
  rw [visits, h.visitsSkipping_eq hpart, h.visitsSkipping_eq hpart, hprune]

end Tree.Houses

/-- In every tree that is built, a walk that skips chosen nodes right after entering them makes the
reports of the full walk but for those from inside the chosen nodes, with tokens and without. It
ends, and whenever it enters a chosen node there is something to skip. Without tokens, a walk makes
the reports about nodes of the walk with tokens. -/
theorem Tree.prunesWalks_of_build {text : String} {steps : List BuildStep} {tree : Tree}
    (h : Tree.build text steps = .ok tree) {start : NodeId} (hstart : start < tree.nodeCount)
    (skips : NodeId → Bool) : tree.PrunesWalks start skips := by
  obtain ⟨kind, field, children, rfl, hhouses⟩ := Tree.houses_of_build h
  have hends := hhouses.yields_visitsSkipping hstart skips
  have hnodes := hhouses.nodeVisitsSkipping_eq hstart
  have hpruned := hhouses.visitsSkipping_eq_prune hstart skips
  refine ⟨hends, ?_, hpruned, ?_, hnodes skips⟩
  · rw [hnodes skips]
    exact hends.nodes
  · rw [nodeVisits, hnodes, hnodes, hpruned, Visit.filter_prune]
    rfl

/-- A skipped node around another one that would be skipped, and a skipped node without children. -/
theorem Tree.prunesWalks_nested :
    ∃ tree, Tree.build "ab" [.start .sourceFile none, .start .argumentList none,
        .start .argumentList none, .token [] .name 1 [] none, .finish, .finish,
        .start .argumentList none, .finish, .token [] .name 1 [] none, .finish] = .ok tree ∧
      root < tree.nodeCount ∧ tree.PrunesWalks root (· != root) ∧
      tree.visitsSkipping root (· != root) =
        [.enter 0, .enter 1, .enter 3, .token 1, .leave 0] := by
  have hfacts : (Tree.build "ab" [.start .sourceFile none, .start .argumentList none,
      .start .argumentList none, .token [] .name 1 [] none, .finish, .finish,
      .start .argumentList none, .finish, .token [] .name 1 [] none, .finish]).toOption.any
        (fun tree => decide (root < tree.nodeCount ∧ tree.visitsSkipping root (· != root) =
          [.enter 0, .enter 1, .enter 3, .token 1, .leave 0])) = true := by
    decide +kernel
  obtain ⟨tree, htree⟩ : ∃ tree, Tree.build "ab" [.start .sourceFile none,
      .start .argumentList none, .start .argumentList none, .token [] .name 1 [] none, .finish,
      .finish, .start .argumentList none, .finish, .token [] .name 1 [] none, .finish] =
        .ok tree := ⟨_, rfl⟩
  rw [htree] at hfacts
  obtain ⟨hroot, hvisits⟩ := of_decide_eq_true hfacts
  exact ⟨tree, htree, hroot, prunesWalks_of_build htree hroot _, hvisits⟩

end ScriptTree

import Mathlib.Data.List.Chain
import Mathlib.Data.List.Nodup
import Mathlib.Data.List.Perm.Subperm
import ScriptTree.Proofs.Parser.Steps

/-!
Arrangements: in which order nodes open. A start that was opened in front of a node opens where the
start of that node stands, and so on along the pointers; a blank that was given up opens nowhere,
even if a pointer leads to it. An arrangement lists, for each position of the events, what opens
there. It is kept by whatever is done to the events, and the steps of the events follow it.
-/

namespace ScriptTree

namespace Events

def target (events : Events) (position : Nat) : Option Nat :=
  match events[position]? with
  | some (.start _ (some distance) _) => some (position + distance)
  | _ => none

def own (events : Events) (position : Nat) : List BuildStep :=
  match events[position]? with
  | some (.start kind _ field) => if kind = .tombstone then [] else [.start kind field]
  | some (.token token field) => (Shape.leaf token field).steps
  | some .finish => [.finish]
  | none => []

theorem target_of_start {events : Events} {position : Nat} {kind : Kind} {forward : Option Nat}
    {field : Option Field} (h : events[position]? = some (.start kind forward field)) :
    events.target position = forward.map (position + ·) := by
  cases forward <;> simp [target, h]

/-- In a list of events, an event points to a position exactly if it does so in the array. -/
theorem claims_iff {events : Events} {source position : Nat} :
    Claims events.toList source position ↔ events.target source = some position := by
  constructor
  · rintro ⟨kind, distance, field, hsource, rfl⟩
    rw [target_of_start (by simpa using hsource)]
    rfl
  · intro h
    unfold target at h
    split at h
    · next kind distance field hsource =>
      exact ⟨kind, distance, field, by simpa using hsource, Option.some.inj h⟩
    · cases h

theorem lt_size_of_target {events : Events} {position outer : Nat}
    (h : events.target position = some outer) : position < events.size := by
  by_contra hge
  simp [target, Array.getElem?_eq_none (Nat.le_of_not_lt hge)] at h

theorem lt_size_of_startsAt {events : Events} {position : Nat}
    (h : events.startsAt position = true) : position < events.size := by
  obtain ⟨kind, forward, field, hevent⟩ := startsAt_iff.mp h
  exact (Array.getElem?_eq_some_iff.mp hevent).1

section Congruence

variable {events events' : Events} {position : Nat} (h : events'[position]? = events[position]?)

include h

theorem target_congr : events'.target position = events.target position := by
  unfold target
  rw [h]

theorem startsAt_congr : events'.startsAt position = events.startsAt position := by
  unfold startsAt
  rw [h]

theorem isBlankAt_congr : events'.isBlankAt position = events.isBlankAt position := by
  unfold isBlankAt
  rw [h]

end Congruence

/-- For each position, the positions of the events that open there, from the outside in: those that
the pointers lead to from there, and the event itself. No position stands twice, and those that do
not stand at all are blanks. The pointer of the outermost event leads nowhere, or to such a blank.
Blanks have no pointers. -/
structure Arranged (events : Events) (blocks : List (List Nat)) : Prop where
  length : blocks.length = events.size
  nodup : blocks.flatten.Nodup
  bound : ∀ position ∈ blocks.flatten, position < events.size
  blank : ∀ position < events.size, position ∉ blocks.flatten → events.isBlankAt position = true
  root : ∀ (position : Nat) (block : List Nat), blocks[position]? = some block →
    ∀ last ∈ block.getLast?, last = position
  linked : ∀ block ∈ blocks, block.IsChain fun outer inner =>
    events.target inner = some outer ∧ events.startsAt outer = true
  loose : ∀ block ∈ blocks, ∀ head ∈ block.head?, ∀ outer, events.target head = some outer →
    outer ∉ blocks.flatten ∧ events.isBlankAt outer = true
  untied : ∀ (position : Nat) (forward : Option Nat) (field : Option Field),
    events[position]? = some (.start .tombstone forward field) → forward = none

namespace Arranged

variable {events : Events} {blocks : List (List Nat)}

/-- Two blocks with a position in common are the same. -/
theorem eq_of_mem (h : Arranged events blocks) {i j position : Nat} {block block' : List Nat}
    (hi : blocks[i]? = some block) (hj : blocks[j]? = some block') (hmem : position ∈ block)
    (hmem' : position ∈ block') : i = j := by
  by_contra hne
  have hdisjoint := (List.nodup_flatten.mp h.nodup).2
  rw [List.pairwise_iff_getElem] at hdisjoint
  obtain ⟨hi', rfl⟩ := List.getElem?_eq_some_iff.mp hi
  obtain ⟨hj', rfl⟩ := List.getElem?_eq_some_iff.mp hj
  rcases Nat.lt_or_gt_of_ne hne with hlt | hgt
  · exact hdisjoint i j hi' hj' hlt hmem hmem'
  · exact hdisjoint j i hj' hi' hgt hmem' hmem

/-- An event that opens inside another one has a pointer to it. -/
theorem exists_inner (h : Arranged events blocks) {root position : Nat} {block : List Nat}
    (hblock : blocks[root]? = some block) (hmem : position ∈ block) (hne : position ≠ root) :
    ∃ inner ∈ block, events.target inner = some position ∧ events.startsAt position = true := by
  obtain ⟨front, back, rfl⟩ := List.append_of_mem hmem
  cases back with
  | nil => exact absurd (h.root root _ hblock position (by simp)) hne
  | cons inner back =>
    have hlinked := h.linked _ (List.mem_of_getElem? hblock)
    exact ⟨inner, by simp, (List.isChain_append_cons_cons.mp hlinked).2.1⟩

/-- An event of a block is the outermost one, or its pointer leads to the one right outside. -/
theorem outermost_or_linked (h : Arranged events blocks) {block : List Nat}
    (hblock : block ∈ blocks) {position : Nat} (hmem : position ∈ block) :
    (∃ rest, block = position :: rest) ∨
      ∃ front outer back, block = front ++ outer :: position :: back ∧
        events.target position = some outer ∧ events.startsAt outer = true := by
  obtain ⟨front, back, rfl⟩ := List.append_of_mem hmem
  rcases List.eq_nil_or_concat front with rfl | ⟨front, outer, rfl⟩
  · exact Or.inl ⟨back, rfl⟩
  · have hlinked := h.linked _ hblock
    rw [List.concat_eq_append, List.append_assoc, List.singleton_append] at hlinked ⊢
    exact Or.inr ⟨front, outer, back, rfl, (List.isChain_append_cons_cons.mp hlinked).2.1⟩

/-- A pointer to an event that opens leads to the one right outside. -/
theorem exists_outer (h : Arranged events blocks) {block : List Nat} (hblock : block ∈ blocks)
    {position outer : Nat} (hmem : position ∈ block) (htarget : events.target position = some outer)
    (houter : outer ∈ blocks.flatten) :
    ∃ front back, block = front ++ outer :: position :: back := by
  rcases h.outermost_or_linked hblock hmem with
    ⟨rest, rfl⟩ | ⟨front, outer', back, rfl, htarget', -⟩
  · exact absurd houter (h.loose _ hblock position rfl outer htarget).1
  · obtain rfl := Option.some.inj (htarget.symm.trans htarget')
    exact ⟨front, back, rfl⟩

/-- An event without a pointer is the outermost one of its block. -/
theorem exists_cons (h : Arranged events blocks) {position : Nat}
    (hmem : position ∈ blocks.flatten) (htarget : events.target position = none) :
    ∃ front rest back, blocks = front ++ (position :: rest) :: back := by
  obtain ⟨block, hblock, hin⟩ := List.mem_flatten.mp hmem
  rcases h.outermost_or_linked hblock hin with ⟨rest, rfl⟩ | ⟨front, outer, back, rfl, houter, -⟩
  · obtain ⟨front, back, rfl⟩ := List.append_of_mem hblock
    exact ⟨front, rest, back, rfl⟩
  · rw [houter] at htarget
    cases htarget

/-- Following the pointers outwards gives the starts on the way; a blank makes none. -/
theorem chain_eq {inner : Nat} {outside : List Nat}
    (hlinked : (inner :: outside).IsChain fun inner outer =>
      events.target inner = some outer ∧ events.startsAt outer = true)
    (hstart : events.startsAt inner = true)
    (hloose : ∀ last ∈ (inner :: outside).getLast?, ∀ outer, events.target last = some outer →
      events.isBlankAt outer = true) {limit : Nat} (hlimit : outside.length < limit) :
    (events.chain inner limit).map (fun (kind, field) => BuildStep.start kind field) =
      (inner :: outside).flatMap events.own := by
  -- on the starts outside; each takes one from the limit
  induction outside generalizing inner limit with
  | nil =>
    obtain ⟨limit, rfl⟩ := Nat.exists_eq_add_of_lt hlimit
    obtain ⟨kind, forward, field, hinner⟩ := startsAt_iff.mp hstart
    -- a pointer that is left over leads to a blank without a pointer, where the chain ends
    have hend : ∀ distance, forward = some distance →
        events.chain (inner + distance) limit = [] := by
      intro distance hforward
      have htarget : events.target inner = some (inner + distance) := by
        rw [target_of_start hinner, hforward]
        rfl
      obtain ⟨field', hblank⟩ := isBlankAt_iff.mp (hloose inner rfl _ htarget)
      cases limit with
      | zero => rfl
      | succ limit => simp [chain, hblank]
    cases forward with
    | none => by_cases hkind : kind = .tombstone <;> simp [chain, own, hinner, hkind]
    | some distance =>
      have hnil := hend distance rfl
      by_cases hkind : kind = .tombstone <;> simp [chain, own, hinner, hkind, hnil]
  | cons outer outside ih =>
    obtain ⟨limit, rfl⟩ : ∃ fewer, limit = fewer + 1 :=
      ⟨limit - 1, by simp only [List.length_cons] at hlimit; omega⟩
    obtain ⟨kind, forward, field, hinner⟩ := startsAt_iff.mp hstart
    obtain ⟨⟨htarget, houter⟩, hrest⟩ := List.isChain_cons_cons.mp hlinked
    have hnext := ih hrest houter (by simpa using hloose)
      (by simpa using hlimit : outside.length < limit)
    rw [target_of_start hinner] at htarget
    obtain ⟨distance, rfl, rfl⟩ := Option.map_eq_some_iff.mp htarget
    rw [List.flatMap_cons, ← hnext]
    by_cases hkind : kind = .tombstone <;> simp [chain, own, hinner, hkind]

/-- What opens at an event without a pointer is that event, or nothing. -/
theorem eq_singleton (h : Arranged events blocks) {position : Nat} {block : List Nat}
    (hblock : blocks[position]? = some block) (hne : block ≠ [])
    (htarget : events.target position = none) : block = [position] := by
  have hin := List.mem_of_getElem? hblock
  have hlast := h.root position block hblock _ (List.getLast?_eq_some_getLast hne)
  have hmem : position ∈ block := hlast ▸ List.getLast_mem hne
  rcases h.outermost_or_linked hin hmem with ⟨rest, rfl⟩ | ⟨front, outer, back, rfl, houter, -⟩
  · -- the position stands last as well, and no position stands twice
    have hnodup := (List.nodup_flatten.mp h.nodup).1 _ hin
    cases rest with
    | nil => rfl
    | cons inner rest =>
      rw [List.getLast_cons (List.cons_ne_nil _ _)] at hlast
      exact absurd (hlast ▸ List.getLast_mem _) (List.nodup_cons.mp hnodup).1
  · rw [houter] at htarget
    cases htarget

/-- To an event at which nothing opens a pointer leads, unless it opens nowhere. -/
theorem exists_claim (h : Arranged events blocks) {position : Nat}
    (hblock : blocks[position]? = some []) (hmem : position ∈ blocks.flatten) :
    ∃ inner, events.target inner = some position ∧ events.startsAt position = true := by
  obtain ⟨block, hblock', hin⟩ := List.mem_flatten.mp hmem
  obtain ⟨other, hother⟩ := List.mem_iff_getElem?.mp hblock'
  have hne : position ≠ other := by
    rintro rfl
    obtain rfl := Option.some.inj (hblock.symm.trans hother)
    cases hin
  obtain ⟨inner, -, hinner⟩ := h.exists_inner hother hin hne
  exact ⟨inner, hinner⟩

/-- Nothing opens at an event if a pointer leads to it, and only then. -/
theorem claimed_iff (h : Arranged events blocks) {position : Nat} {block : List Nat}
    (hblock : blocks[position]? = some block) (hmem : position ∈ blocks.flatten) :
    (∃ source, Claims events.toList source position) ↔ block = [] := by
  simp only [claims_iff]
  constructor
  · rintro ⟨source, htarget⟩
    by_contra hne
    have hlast : position ∈ block.getLast? := by
      obtain ⟨front, last, rfl⟩ := (List.eq_nil_or_concat block).resolve_left hne
      obtain rfl := h.root position _ hblock last (by simp)
      simp
    -- only blanks do not open, and they have no pointers
    have hsource : source ∈ blocks.flatten := by
      by_contra hout
      obtain ⟨field, hblank⟩ := isBlankAt_iff.mp (h.blank source (lt_size_of_target htarget) hout)
      rw [target_of_start hblank] at htarget
      cases htarget
    -- so the source opens inside the position, which stands in its own block once more
    obtain ⟨block', hblock', hin⟩ := List.mem_flatten.mp hsource
    obtain ⟨front, back, rfl⟩ := h.exists_outer hblock' hin htarget hmem
    obtain ⟨other, hother⟩ := List.mem_iff_getElem?.mp hblock'
    obtain rfl := h.eq_of_mem hblock hother (List.mem_of_getLast? hlast) (by simp)
    obtain rfl := Option.some.inj (hblock.symm.trans hother)
    have hnodup := (List.nodup_flatten.mp h.nodup).1 _ hblock'
    have hagain : position ∈ source :: back := by
      rw [List.getLast?_append_of_ne_nil _ (List.cons_ne_nil _ _), List.getLast?_cons_cons] at hlast
      exact List.mem_of_getLast? hlast
    exact (List.nodup_cons.mp (List.nodup_append.mp hnodup).2.1).1 hagain
  · rintro rfl
    obtain ⟨inner, htarget, -⟩ := h.exists_claim hblock hmem
    exact ⟨inner, htarget⟩

theorem reverse_own (events : Events) (position : Nat) :
    (events.own position).reverse = events.own position := by
  unfold own
  split
  · split <;> rfl
  · simp [Shape.steps]
  · rfl
  · rfl

theorem lt_of_block (h : Arranged events blocks) {position : Nat} {block : List Nat}
    (hblock : blocks[position]? = some block) : position < events.size := by
  rw [← h.length]
  exact (List.getElem?_eq_some_iff.mp hblock).1

/-- Whatever is no blank opens. -/
theorem mem_of_not_blank (h : Arranged events blocks) {position : Nat}
    (hlt : position < events.size) (hnot : events.isBlankAt position = false) :
    position ∈ blocks.flatten := by
  by_contra hout
  rw [h.blank position hlt hout] at hnot
  cases hnot

/-- An event that is no start opens by itself, since no pointer leads to it. -/
theorem eq_singleton_of_not_start (h : Arranged events blocks) {position : Nat} {block : List Nat}
    (hblock : blocks[position]? = some block) (hnot : ¬ events.startsAt position = true) :
    block = [position] := by
  have hblank : events.isBlankAt position = false :=
    Bool.eq_false_iff.mpr fun hblank => hnot (startsAt_of_isBlankAt hblank)
  refine h.eq_singleton hblock ?_ ?_
  · rintro rfl
    obtain ⟨inner, -, hstarts⟩ :=
      h.exists_claim hblock (h.mem_of_not_blank (h.lt_of_block hblock) hblank)
    exact hnot hstarts
  · cases htarget : events.target position with
    | none => rfl
    | some outer =>
      obtain ⟨kind, distance, field, hevent, -⟩ := claims_iff.mpr htarget
      exact absurd (startsAt_iff.mpr ⟨_, _, _, by simpa using hevent⟩) hnot

/-- Where something opens at a start, it is what following the pointers gives, turned round. -/
theorem reverse_chain (h : Arranged events blocks) {position : Nat} {block : List Nat}
    (hblock : blocks[position]? = some block) (hne : block ≠ [])
    (hstarts : events.startsAt position = true) :
    (events.chain position events.size).reverse.map
      (fun (kind, field) => BuildStep.start kind field) = block.flatMap events.own := by
  have hin := List.mem_of_getElem? hblock
  -- a block has no position twice, so following its pointers ends within the limit
  have hlength : block.length ≤ events.size := by
    have hsubset : block ⊆ List.range events.size := fun inner hinner =>
      List.mem_range.mpr (h.bound inner (List.mem_flatten_of_mem hin hinner))
    simpa using (List.subperm_of_subset ((List.nodup_flatten.mp h.nodup).1 _ hin) hsubset).length_le
  obtain ⟨front, last, rfl⟩ := (List.eq_nil_or_concat block).resolve_left hne
  obtain rfl := h.root position _ hblock last (by simp)
  have hturned : last :: front.reverse = (front.concat last).reverse := by simp
  have hlinked := List.isChain_reverse.mpr (h.linked _ hin)
  rw [← hturned] at hlinked
  have hloose : ∀ head ∈ (last :: front.reverse).getLast?, ∀ outer,
      events.target head = some outer → events.isBlankAt outer = true := by
    intro head hhead outer htarget
    rw [hturned, List.getLast?_reverse] at hhead
    exact (h.loose _ hin head hhead outer htarget).2
  have hshort : front.reverse.length < events.size := by
    rw [List.length_concat] at hlength
    rw [List.length_reverse]
    omega
  have hchain := chain_eq hlinked hstarts hloose hshort
  rw [List.map_reverse, hchain, List.reverse_flatMap, hturned, List.reverse_reverse]
  refine List.flatMap_congr ?_
  intro inner _
  exact reverse_own events inner

/-- The steps at a position are those of the events that open there. -/
theorem stepsAt_eq (h : Arranged events blocks) {position : Nat} {block : List Nat}
    (hblock : blocks[position]? = some block) :
    events.stepsAt events.claimed position = block.flatMap events.own := by
  have hlt := h.lt_of_block hblock
  cases hevent : events[position]? with
  | none =>
    rw [Array.getElem?_eq_none_iff] at hevent
    omega
  | some event =>
    cases event with
    | token token field =>
      rw [h.eq_singleton_of_not_start hblock (by simp [startsAt, hevent])]
      simp [stepsAt, own, hevent, Shape.steps]
    | finish =>
      rw [h.eq_singleton_of_not_start hblock (by simp [startsAt, hevent])]
      simp [stepsAt, own, hevent]
    | start kind forward field =>
      by_cases hkind : kind = .tombstone
      · subst hkind
        obtain rfl := h.untied position forward field hevent
        by_cases hnil : block = []
        · simp [stepsAt, hevent, hnil]
        · rw [h.eq_singleton hblock hnil (target_of_start hevent)]
          simp [stepsAt, own, hevent]
      · -- a start that is claimed has been made where its pointer comes from
        have hmem := h.mem_of_not_blank hlt (by simp [isBlankAt, hevent, hkind])
        have hclaimed : events.claimed.getD position false = true ↔ block = [] := by
          rw [← h.claimed_iff hblock hmem]
          have hiff := claimed_getD events.toList position
          rw [Array.length_toList, and_iff_right hlt] at hiff
          simpa using hiff
        by_cases hnil : block = []
        · simp [stepsAt, hevent, hclaimed.mpr hnil, hnil]
        · have hfree : events.claimed.getD position false = false :=
            Bool.eq_false_iff.mpr fun hclaim => hnil (hclaimed.mp hclaim)
          rw [← h.reverse_chain hblock hnil (startsAt_iff.mpr ⟨_, _, _, hevent⟩)]
          simp [stepsAt, hevent, hkind, hfree]

/-- The steps of events follow the arrangement. -/
theorem steps_eq (h : Arranged events blocks) :
    events.steps = blocks.flatten.flatMap events.own := by
  have hblocks :
      blocks = (List.range events.size).map (fun position => blocks.getD position []) := by
    apply List.ext_getElem
    · simp [h.length]
    · intro position hlt hlt'
      simp [hlt]
  unfold steps
  rw [← List.flatMap_id, List.flatMap_assoc, hblocks, List.flatMap_map]
  refine List.flatMap_congr ?_
  intro position hmem
  have hlt : position < blocks.length := by
    rw [h.length]
    exact List.mem_range.mp hmem
  have hblock : blocks[position]? = some (blocks.getD position []) := by simp [hlt]
  exact h.stepsAt_eq hblock

/-- Every pointer leads to a start. -/
theorem isLinked (h : Arranged events blocks) : events.isLinked = true := by
  rw [Events.isLinked, List.all_eq_true]
  intro position hposition
  split
  · next kind distance field hevent =>
    have htarget : events.target position = some (position + distance) := target_of_start hevent
    have hmem : position ∈ blocks.flatten := by
      refine h.mem_of_not_blank (List.mem_range.mp hposition) ?_
      rw [← Bool.not_eq_true, isBlankAt_iff, hevent]
      simp
    obtain ⟨block, hblock, hin⟩ := List.mem_flatten.mp hmem
    rcases h.outermost_or_linked hblock hin with
      ⟨rest, rfl⟩ | ⟨front, outer, back, rfl, houter, hstarts⟩
    · exact startsAt_of_isBlankAt (h.loose _ hblock position rfl _ htarget).2
    · obtain rfl := Option.some.inj (htarget.symm.trans houter)
      exact hstarts
  · rfl

/-- Nothing is arranged yet. -/
theorem empty : Arranged #[] [] := by
  refine ⟨rfl, List.nodup_nil, ?_, ?_, ?_, ?_, ?_, ?_⟩ <;> simp

theorem getElem?_push_of_lt (events : Events) (event : Event) {position : Nat}
    (hlt : position < events.size) : (events.push event)[position]? = events[position]? := by
  rw [Array.getElem?_push, if_neg (Nat.ne_of_lt hlt)]

/-- An event without a pointer is written behind the others, where it opens. -/
theorem push (h : Arranged events blocks) {event : Event}
    (hfree : ∀ kind forward field, event = .start kind forward field → forward = none) :
    Arranged (events.push event) (blocks ++ [[events.size]]) := by
  have hflatten : (blocks ++ [[events.size]]).flatten = blocks.flatten ++ [events.size] := by simp
  have hsame {position : Nat} (hlt : position < events.size) :
      (events.push event)[position]? = events[position]? := getElem?_push_of_lt events event hlt
  have hlast : (events.push event)[events.size]? = some event := Array.getElem?_push_size
  constructor
  case length => simp [h.length]
  case nodup =>
    rw [hflatten, List.nodup_append]
    refine ⟨h.nodup, List.nodup_singleton _, ?_⟩
    intro position hmem last hlast
    rw [List.mem_singleton.mp hlast]
    exact Nat.ne_of_lt (h.bound position hmem)
  case bound =>
    intro position hmem
    rw [hflatten, List.mem_append, List.mem_singleton] at hmem
    rw [Array.size_push]
    rcases hmem with hmem | rfl
    · exact Nat.lt_succ_of_lt (h.bound position hmem)
    · exact Nat.lt_succ_self _
  case blank =>
    intro position hlt hout
    rw [hflatten, List.mem_append, List.mem_singleton, not_or] at hout
    rw [Array.size_push] at hlt
    have hlt' : position < events.size := by omega
    rw [isBlankAt_congr (hsame hlt')]
    exact h.blank position hlt' hout.1
  case root =>
    intro position block hblock last hmem
    rw [List.getElem?_append] at hblock
    split at hblock
    · exact h.root position block hblock last hmem
    · next hge =>
      rw [List.getElem?_singleton] at hblock
      split at hblock
      · next hzero =>
        obtain rfl := Option.some.inj hblock
        have hlength := h.length
        have hposition : last = events.size := (Option.some.inj hmem).symm
        omega
      · cases hblock
  case linked =>
    intro block hblock
    rcases List.mem_append.mp hblock with hblock | hblock
    · refine (h.linked block hblock).imp ?_
      rintro outer inner ⟨htarget, hstarts⟩
      rw [target_congr (hsame (lt_size_of_target htarget)),
        startsAt_congr (hsame (lt_size_of_startsAt hstarts))]
      exact ⟨htarget, hstarts⟩
    · rw [List.mem_singleton.mp hblock]
      exact List.isChain_singleton _
  case loose =>
    -- the new event has no pointer, and no pointer leads to it yet
    intro block hblock head hhead outer htarget
    rcases List.mem_append.mp hblock with hblock | hblock
    · have hlt := h.bound head (List.mem_flatten_of_mem hblock (List.mem_of_head? hhead))
      rw [target_congr (hsame hlt)] at htarget
      obtain ⟨hout, hblank⟩ := h.loose block hblock head hhead outer htarget
      have hlt' := lt_size_of_startsAt (startsAt_of_isBlankAt hblank)
      rw [hflatten, List.mem_append, List.mem_singleton, not_or, isBlankAt_congr (hsame hlt')]
      exact ⟨⟨hout, Nat.ne_of_lt hlt'⟩, hblank⟩
    · rw [List.mem_singleton.mp hblock] at hhead
      obtain rfl := Option.some.inj hhead
      obtain ⟨kind, distance, field, hevent, -⟩ := claims_iff.mpr htarget
      rw [Array.getElem?_toList, hlast] at hevent
      cases hfree _ _ _ (Option.some.inj hevent)
  case untied =>
    intro position forward field hevent
    rw [Array.getElem?_push] at hevent
    split at hevent
    · exact hfree _ _ _ (Option.some.inj hevent)
    · exact h.untied position forward field hevent

/-- A start that opens gets another kind or slot. -/
theorem retouch (h : Arranged events blocks) {mark : Nat} (hmem : mark ∈ blocks.flatten)
    {kind kind' : Kind} {forward : Option Nat} {field field' : Option Field}
    (hold : events[mark]? = some (.start kind forward field)) {change : Event → Event}
    (hnew : change (.start kind forward field) = .start kind' forward field')
    (hkind : kind' ≠ .tombstone) : Arranged (events.modify mark change) blocks := by
  have hmark : (events.modify mark change)[mark]? = some (.start kind' forward field') := by
    rw [Array.getElem?_modify, if_pos rfl, hold, Option.map_some, hnew]
  have hsame {position : Nat} (hne : position ≠ mark) :
      (events.modify mark change)[position]? = events[position]? := by
    rw [Array.getElem?_modify, if_neg hne.symm]
  -- pointers and starts are where they were, since only the kind and the slot of one start change
  have htarget (position : Nat) :
      target (events.modify mark change) position = events.target position := by
    by_cases hposition : position = mark
    · rw [hposition, target_of_start hmark, target_of_start hold]
    · exact target_congr (hsame hposition)
  have hstarts (position : Nat) :
      startsAt (events.modify mark change) position = events.startsAt position := by
    by_cases hposition : position = mark
    · rw [hposition, startsAt_iff.mpr ⟨_, _, _, hmark⟩, startsAt_iff.mpr ⟨_, _, _, hold⟩]
    · exact startsAt_congr (hsame hposition)
  have hblank {position : Nat} (hout : position ∉ blocks.flatten) :
      isBlankAt (events.modify mark change) position = events.isBlankAt position :=
    isBlankAt_congr (hsame fun heq => hout (heq ▸ hmem))
  constructor
  case length => simp [h.length]
  case nodup => exact h.nodup
  case bound => simpa using h.bound
  case blank =>
    intro position hlt hout
    rw [hblank hout]
    exact h.blank position (by simpa using hlt) hout
  case root => exact h.root
  case linked =>
    intro block hblock
    refine (h.linked block hblock).imp ?_
    rintro outer inner ⟨hinner, houter⟩
    rw [htarget, hstarts]
    exact ⟨hinner, houter⟩
  case loose =>
    intro block hblock head hhead outer hhead'
    rw [htarget] at hhead'
    obtain ⟨hout, houter⟩ := h.loose block hblock head hhead outer hhead'
    rw [hblank hout]
    exact ⟨hout, houter⟩
  case untied =>
    intro position forward' field'' hevent
    by_cases hposition : position = mark
    · rw [hposition, hmark] at hevent
      exact absurd (Event.start.inj (Option.some.inj hevent)).1 hkind
    · rw [hsame hposition] at hevent
      exact h.untied position forward' field'' hevent

/-- The entries of a list with one of them replaced. -/
theorem getElem?_replaced {front back : List (List Nat)} (old : List Nat) {new block : List Nat}
    {position : Nat} (hblock : (front ++ new :: back)[position]? = some block) :
    (position = front.length ∧ block = new) ∨ (front ++ old :: back)[position]? = some block := by
  rw [List.getElem?_append] at hblock ⊢
  split at hblock
  · next hlt => exact Or.inr (by rw [if_pos hlt, hblock])
  · next hge =>
    rw [if_neg hge]
    rw [List.getElem?_cons] at hblock ⊢
    split at hblock
    · next hzero => exact Or.inl ⟨by omega, (Option.some.inj hblock).symm⟩
    · next hnonzero => exact Or.inr (by rw [if_neg hnonzero, hblock])

/-- A blank is given up: it opens no more. -/
theorem erase {front back : List (List Nat)} {mark : Nat} {rest : List Nat}
    (h : Arranged events (front ++ (mark :: rest) :: back))
    (hblank : events.isBlankAt mark = true) : Arranged events (front ++ rest :: back) := by
  have hsub : List.Sublist (front ++ rest :: back).flatten
      (front ++ (mark :: rest) :: back).flatten := by
    simp only [List.flatten_append, List.flatten_cons, List.cons_append]
    exact (List.Sublist.refl _).append (List.sublist_cons_self _ _)
  have hin : (mark :: rest) ∈ front ++ (mark :: rest) :: back := by simp
  have hnodup := h.nodup
  -- no position stands twice, so the blank stands nowhere else
  have hout : mark ∉ (front ++ rest :: back).flatten := by
    simp only [List.flatten_append, List.flatten_cons, List.cons_append] at hnodup ⊢
    exact (List.nodup_middle.mp hnodup).notMem
  have hblocks {block : List Nat} (hblock : block ∈ front ++ rest :: back) :
      block = rest ∨ block ∈ front ++ (mark :: rest) :: back := by
    simp only [List.mem_append, List.mem_cons] at hblock ⊢
    tauto
  constructor
  case length => simpa using h.length
  case nodup => exact h.nodup.sublist hsub
  case bound => exact fun position hmem => h.bound position (hsub.subset hmem)
  case blank =>
    intro position hlt hout'
    by_cases hposition : position = mark
    · rw [hposition, hblank]
    · refine h.blank position hlt fun hmem => hout' ?_
      simp only [List.flatten_append, List.flatten_cons, List.cons_append, List.mem_append,
        List.mem_cons, hposition, false_or] at hmem ⊢
      exact hmem
  case root =>
    intro position block hblock last hlast
    rcases getElem?_replaced (mark :: rest) hblock with ⟨rfl, rfl⟩ | hblock
    · refine h.root front.length (mark :: block) (by simp) last ?_
      cases block with
      | nil => cases hlast
      | cons inner rest => rwa [List.getLast?_cons_cons]
    · exact h.root position block hblock last hlast
  case linked =>
    intro block hblock
    rcases hblocks hblock with rfl | hblock
    · exact (h.linked _ hin).tail
    · exact h.linked block hblock
  case loose =>
    intro block hblock head hhead outer htarget
    rcases hblocks hblock with rfl | hblock
    · -- the pointer of the node in front of which the blank was opened leads to it
      cases block with
      | nil => cases hhead
      | cons inner rest =>
        obtain rfl := Option.some.inj hhead
        have hinner := (List.isChain_cons_cons.mp (h.linked _ hin)).1.1
        obtain rfl := Option.some.inj (hinner.symm.trans htarget)
        exact ⟨hout, hblank⟩
    · obtain ⟨hnot, hisBlank⟩ := h.loose block hblock head hhead outer htarget
      exact ⟨fun hmem => hnot (hsub.subset hmem), hisBlank⟩
  case untied => exact h.untied

/-- A blank that was written last and opens by itself is taken away. -/
theorem pop {front : List (List Nat)} {mark : Nat}
    (h : Arranged events (front ++ [[mark]])) : Arranged events.pop front := by
  have hsize : events.size = front.length + 1 := by simpa using h.length.symm
  obtain rfl : mark = front.length := h.root front.length [mark] (by simp) mark rfl
  have hnodup := h.nodup
  have hbound := h.bound
  have hflatten : (front ++ [[front.length]]).flatten = front.flatten ++ [front.length] := by simp
  rw [hflatten] at hnodup hbound
  -- what is left stands in front of the event that goes
  have hlt {position : Nat} (hmem : position ∈ front.flatten) : position < front.length := by
    have hle := hbound position (List.mem_append_left _ hmem)
    have hne : position ≠ front.length := fun heq =>
      (List.nodup_append.mp hnodup).2.2 position hmem front.length (by simp) heq
    omega
  have hsame {position : Nat} (hposition : position < front.length) :
      events.pop[position]? = events[position]? := by
    rw [Array.getElem?_pop, if_pos (by omega)]
  constructor
  case length => simp [hsize]
  case nodup => exact (List.nodup_append.mp hnodup).1
  case bound =>
    intro position hmem
    simpa [hsize] using hlt hmem
  case blank =>
    intro position hposition hout
    rw [Array.size_pop, hsize, Nat.add_sub_cancel] at hposition
    rw [isBlankAt_congr (hsame hposition)]
    refine h.blank position (by omega) ?_
    rw [hflatten, List.mem_append, List.mem_singleton, not_or]
    exact ⟨hout, Nat.ne_of_lt hposition⟩
  case root =>
    intro position block hblock last hlast
    refine h.root position block ?_ last hlast
    rw [List.getElem?_append_left (List.getElem?_eq_some_iff.mp hblock).1, hblock]
  case linked =>
    intro block hblock
    have hinside {position : Nat} (hmem : position ∈ block) : position < front.length :=
      hlt (List.mem_flatten_of_mem hblock hmem)
    refine (h.linked block (List.mem_append_left _ hblock)).imp_of_mem_imp ?_
    rintro outer inner houter hinner ⟨htarget, hstarts⟩
    rw [target_congr (hsame (hinside hinner)), startsAt_congr (hsame (hinside houter))]
    exact ⟨htarget, hstarts⟩
  case loose =>
    intro block hblock head hhead outer htarget
    have hhead' := hlt (List.mem_flatten_of_mem hblock (List.mem_of_head? hhead))
    rw [target_congr (hsame hhead')] at htarget
    obtain ⟨hout, hblank⟩ :=
      h.loose block (List.mem_append_left _ hblock) head hhead outer htarget
    rw [hflatten, List.mem_append, List.mem_singleton, not_or] at hout
    have houter : outer < front.length := by
      have hle := lt_size_of_startsAt (startsAt_of_isBlankAt hblank)
      omega
    rw [isBlankAt_congr (hsame houter)]
    exact ⟨hout.1, hblank⟩
  case untied =>
    intro position forward field hevent
    rw [Array.getElem?_pop] at hevent
    split at hevent
    · exact h.untied position forward field hevent
    · cases hevent

theorem size_precede (events : Events) (mark : Nat) :
    (events.precede mark).size = events.size + 1 := by
  rw [Events.precede, openNode, Array.size_push, Array.size_modify]

theorem getElem?_precede {mark : Nat} {kind : Kind} {forward : Option Nat} {field : Option Field}
    (hold : events[mark]? = some (.start kind forward field)) (position : Nat) :
    (events.precede mark)[position]? =
      if position = events.size then some .blank
      else if position = mark then some (.start kind (some (events.size - mark)) field)
      else events[position]? := by
  rw [Events.precede, openNode, Array.getElem?_push, Array.size_modify, Array.getElem?_modify]
  by_cases hposition : position = mark
  · simp [hposition, hold, Event.withForward]
  · simp [hposition, Ne.symm hposition]

theorem startsAt_precede {mark : Nat} (hmark : events.startsAt mark = true) {position : Nat}
    (hposition : events.startsAt position = true) :
    startsAt (events.precede mark) position = true := by
  obtain ⟨kind, forward, field, hold⟩ := startsAt_iff.mp hmark
  have hget := getElem?_precede hold position
  rw [if_neg (Nat.ne_of_lt (lt_size_of_startsAt hposition))] at hget
  split at hget
  · exact startsAt_iff.mpr ⟨_, _, _, hget⟩
  · rw [startsAt_congr hget, hposition]

/-- A position that stands in one block stands in no other one. -/
theorem notMem_of_ne {front back : List (List Nat)} {mark : Nat} {rest : List Nat}
    (h : Arranged events (front ++ (mark :: rest) :: back)) {block : List Nat}
    (hblock : block ∈ front ++ back) : mark ∉ block := by
  intro hmem
  have hnodup := h.nodup
  simp only [List.flatten_append, List.flatten_cons, List.cons_append] at hnodup
  refine (List.nodup_middle.mp hnodup).notMem ?_
  rcases List.mem_append.mp hblock with hblock | hblock
  · exact List.mem_append_left _ (List.mem_flatten_of_mem hblock hmem)
  · exact List.mem_append_right _ (List.mem_append_right _ (List.mem_flatten_of_mem hblock hmem))

section Precede

variable {front back : List (List Nat)} {mark : Nat} {rest : List Nat} {kind : Kind}
  {forward : Option Nat} {field : Option Field}

theorem getElem?_precede_of_ne (hold : events[mark]? = some (.start kind forward field))
    {position : Nat} (hlt : position < events.size) (hne : position ≠ mark) :
    (events.precede mark)[position]? = events[position]? := by
  rw [getElem?_precede hold, if_neg (Nat.ne_of_lt hlt), if_neg hne]

/-- Pointers other than that of the node lead where they led. -/
theorem link_precede (hold : events[mark]? = some (.start kind forward field)) {outer inner : Nat}
    (hne : inner ≠ mark)
    (hlink : events.target inner = some outer ∧ events.startsAt outer = true) :
    target (events.precede mark) inner = some outer ∧
      startsAt (events.precede mark) outer = true := by
  rw [target_congr (getElem?_precede_of_ne hold (lt_size_of_target hlink.1) hne)]
  exact ⟨hlink.1, startsAt_precede (startsAt_iff.mpr ⟨_, _, _, hold⟩) hlink.2⟩

theorem perm_precede (front back : List (List Nat)) (fresh mark : Nat) (rest : List Nat) :
    (front ++ (fresh :: mark :: rest) :: (back ++ [[]])).flatten.Perm
      (fresh :: (front ++ (mark :: rest) :: back).flatten) := by
  simp only [List.flatten_append, List.flatten_cons, List.flatten_nil, List.append_nil,
    List.cons_append]
  exact List.perm_middle

/-- The blocks with a blank in front of one of them: that one, nothing at the place of the blank,
and the others. -/
theorem cases_precede {fresh : Nat} {block : List Nat}
    (hblock : block ∈ front ++ (fresh :: mark :: rest) :: (back ++ [[]])) :
    block = fresh :: mark :: rest ∨ block = [] ∨
      (block ∈ front ++ back ∧ block ∈ front ++ (mark :: rest) :: back) := by
  simp only [List.mem_append, List.mem_cons, List.not_mem_nil, or_false] at hblock ⊢
  tauto

/-- The node keeps its place, and nothing opens at the place of the blank. -/
theorem root_precede (h : Arranged events (front ++ (mark :: rest) :: back)) {fresh position : Nat}
    {block : List Nat}
    (hblock : (front ++ (fresh :: mark :: rest) :: (back ++ [[]]))[position]? = some block)
    {last : Nat} (hlast : last ∈ block.getLast?) : last = position := by
  rw [← List.cons_append, ← List.append_assoc, List.getElem?_append] at hblock
  split at hblock
  · rcases getElem?_replaced (mark :: rest) hblock with ⟨rfl, rfl⟩ | hblock
    · rw [List.getLast?_cons_cons] at hlast
      exact h.root front.length (mark :: rest) (by simp) last hlast
    · exact h.root position block hblock last hlast
  · rw [List.getElem?_singleton] at hblock
    split at hblock
    · obtain rfl := Option.some.inj hblock
      cases hlast
    · cases hblock

variable (h : Arranged events (front ++ (mark :: rest) :: back))
  (hold : events[mark]? = some (.start kind forward field))

include h hold

/-- The pointer of the node leads to the new blank, and no other pointer has changed. -/
theorem linked_precede {block : List Nat}
    (hblock : block ∈ front ++ (events.size :: mark :: rest) :: (back ++ [[]])) :
    block.IsChain fun outer inner => target (events.precede mark) inner = some outer ∧
      startsAt (events.precede mark) outer = true := by
  have hlt : mark < events.size := (Array.getElem?_eq_some_iff.mp hold).1
  have hin : (mark :: rest) ∈ front ++ (mark :: rest) :: back := by simp
  rcases cases_precede hblock with rfl | rfl | ⟨hother, hblock⟩
  · have hnew : (events.precede mark)[events.size]? = some .blank := by
      rw [getElem?_precede hold, if_pos rfl]
    have hmark : (events.precede mark)[mark]? =
        some (.start kind (some (events.size - mark)) field) := by
      rw [getElem?_precede hold, if_neg (Nat.ne_of_lt hlt), if_pos rfl]
    have hnodup := (List.nodup_flatten.mp h.nodup).1 _ hin
    refine List.isChain_cons_cons.mpr ⟨⟨?_, startsAt_iff.mpr ⟨_, _, _, hnew⟩⟩, ?_⟩
    · rw [target_of_start hmark, Option.map_some, Nat.add_sub_cancel' (Nat.le_of_lt hlt)]
    · refine (h.linked _ hin).imp_of_mem_tail_imp ?_
      intro outer inner _ hinner hlink
      exact link_precede hold (fun heq => (List.nodup_cons.mp hnodup).1 (heq ▸ hinner)) hlink
  · exact List.isChain_nil
  · refine (h.linked block hblock).imp_of_mem_imp ?_
    intro outer inner _ hinner hlink
    exact link_precede hold (fun heq => h.notMem_of_ne hother (heq ▸ hinner)) hlink

/-- The new blank, which is the outermost one at its place, has no pointer. -/
theorem loose_precede {block : List Nat}
    (hblock : block ∈ front ++ (events.size :: mark :: rest) :: (back ++ [[]])) {head outer : Nat}
    (hhead : head ∈ block.head?) (htarget : target (events.precede mark) head = some outer) :
    outer ∉ (front ++ (events.size :: mark :: rest) :: (back ++ [[]])).flatten ∧
      isBlankAt (events.precede mark) outer = true := by
  rcases cases_precede hblock with rfl | rfl | ⟨hother, hblock⟩
  · obtain rfl := Option.some.inj hhead
    have hnew : (events.precede mark)[events.size]? = some .blank := by
      rw [getElem?_precede hold, if_pos rfl]
    rw [target_of_start hnew] at htarget
    cases htarget
  · cases hhead
  · have hmem := List.mem_of_head? hhead
    have hne : head ≠ mark := fun heq => h.notMem_of_ne hother (heq ▸ hmem)
    have hlt := h.bound head (List.mem_flatten_of_mem hblock hmem)
    rw [target_congr (getElem?_precede_of_ne hold hlt hne)] at htarget
    obtain ⟨hout, hblank⟩ := h.loose block hblock head hhead outer htarget
    have hlt' := lt_size_of_startsAt (startsAt_of_isBlankAt hblank)
    have hne' : outer ≠ mark := by
      rintro rfl
      exact hout (by simp)
    rw [(perm_precede front back events.size mark rest).mem_iff, List.mem_cons, not_or,
      isBlankAt_congr (getElem?_precede_of_ne hold hlt' hne')]
    exact ⟨⟨Nat.ne_of_lt hlt', hout⟩, hblank⟩

/-- A blank is opened in front of a node: it opens where the node opens, right outside. -/
theorem precede (hkind : kind ≠ .tombstone) :
    Arranged (events.precede mark) (front ++ (events.size :: mark :: rest) :: (back ++ [[]])) := by
  have hperm := perm_precede front back events.size mark rest
  constructor
  case length =>
    have hlength := h.length
    rw [size_precede, ← hlength]
    simp only [List.length_append, List.length_cons, List.length_nil]
    omega
  case nodup =>
    have hfresh : events.size ∉ (front ++ (mark :: rest) :: back).flatten :=
      fun hin => Nat.lt_irrefl _ (h.bound _ hin)
    exact hperm.nodup_iff.mpr (List.nodup_cons.mpr ⟨hfresh, h.nodup⟩)
  case bound =>
    intro position hmem
    rw [size_precede]
    rcases List.mem_cons.mp (hperm.mem_iff.mp hmem) with rfl | hmem
    · exact Nat.lt_succ_self _
    · exact Nat.lt_succ_of_lt (h.bound position hmem)
  case blank =>
    intro position hlt hout
    rw [hperm.mem_iff, List.mem_cons, not_or] at hout
    rw [size_precede] at hlt
    have hlt' : position < events.size := by omega
    have hne : position ≠ mark := by
      rintro rfl
      exact hout.2 (by simp)
    rw [isBlankAt_congr (getElem?_precede_of_ne hold hlt' hne)]
    exact h.blank position hlt' hout.2
  case root => exact fun position block hblock last hlast => h.root_precede hblock hlast
  case linked => exact fun block hblock => h.linked_precede hold hblock
  case loose => exact fun block hblock head hhead outer => h.loose_precede hold hblock hhead
  case untied =>
    intro position forward' field' hevent
    rw [getElem?_precede hold] at hevent
    split at hevent
    · exact (Event.start.inj (Option.some.inj hevent)).2.1.symm
    · split at hevent
      · exact absurd (Event.start.inj (Option.some.inj hevent)).1 hkind
      · exact h.untied position forward' field' hevent

end Precede

end Arranged

end Events

end ScriptTree

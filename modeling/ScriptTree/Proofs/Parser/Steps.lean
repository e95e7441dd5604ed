import Mathlib.Tactic.ByContra
import ScriptTree.Proofs.Parser.Growth

/-!
From events to steps: the pointers of a growth lead to starts, and following them gives the steps
that build its shapes.
-/

namespace ScriptTree

namespace Events

def Claims (events : List Event) (source target : Nat) : Prop :=
  ∃ kind distance field,
    events[source]? = some (.start kind (some distance) field) ∧ source + distance = target

theorem claim_start (marks : Array Bool) (position distance : Nat) (kind : Kind)
    (field : Option Field) :
    claim (marks, position) (.start kind (some distance) field) =
      (marks.setIfInBounds (position + distance) true, position + 1) :=
  rfl

theorem claim_other (marks : Array Bool) (position : Nat) {event : Event}
    (h : ∀ kind distance field, event ≠ .start kind (some distance) field) :
    claim (marks, position) event = (marks, position + 1) := by
  cases event with
  | start kind forward field =>
    cases forward with
    | none => rfl
    | some distance => exact absurd rfl (h kind distance field)
  | token _ _ => rfl
  | finish => rfl

theorem getD_setIfInBounds_true (marks : Array Bool) (target position : Nat) :
    (marks.setIfInBounds target true).getD position false = true ↔
      marks.getD position false = true ∨ (position = target ∧ position < marks.size) := by
  simp only [Array.getD_eq_getD_getElem?, Array.getElem?_setIfInBounds]
  by_cases hp : target = position
  · subst hp
    by_cases hs : target < marks.size
    · simp [hs]
    · simp [hs]
  · have hp' : position ≠ target := fun h => hp h.symm
    simp [hp, hp']

/-- What is claimed in the end was claimed before, or one of the events points to it. -/
theorem foldl_claim (events : List Event) (marks : Array Bool) (offset position : Nat) :
    (events.foldl claim (marks, offset)).1.getD position false = true ↔
      marks.getD position false = true ∨
        (position < marks.size ∧ ∃ source target, Claims events source target ∧
          offset + target = position) := by
  induction events generalizing marks offset with
  | nil => simp [Claims]
  | cons event rest ih =>
    -- a claim of the whole list is the first event's own, or one of the rest shifted by one
    have hsplit : (∃ source target, Claims (event :: rest) source target ∧
          offset + target = position) ↔
        (∃ kind distance field, event = .start kind (some distance) field ∧
          offset + distance = position) ∨
        (∃ source target, Claims rest source target ∧ offset + 1 + target = position) := by
      constructor
      · rintro ⟨source, target, ⟨kind, distance, field, hg, rfl⟩, he⟩
        cases source with
        | zero =>
          refine Or.inl ⟨kind, distance, field, by simpa using hg, ?_⟩
          omega
        | succ source =>
          refine Or.inr ⟨source, source + distance, ⟨kind, distance, field, by simpa using hg, rfl⟩,
            ?_⟩
          omega
      · rintro (⟨kind, distance, field, rfl, he⟩ |
          ⟨source, target, ⟨kind, distance, field, hg, rfl⟩,
          he⟩)
        · exact ⟨0, 0 + distance, ⟨kind, distance, field, by simp, rfl⟩, by omega⟩
        · exact ⟨source + 1, source + 1 + distance, ⟨kind, distance, field, by simpa using hg, rfl⟩,
            by omega⟩
    rw [List.foldl_cons, hsplit]
    by_cases hev : ∃ kind distance field, event = .start kind (some distance) field
    · obtain ⟨kind, distance, field, rfl⟩ := hev
      rw [claim_start, ih, getD_setIfInBounds_true]
      have hown : (∃ kind' distance' field', Event.start kind (some distance) field =
          .start kind' (some distance') field' ∧ offset + distance' = position) ↔
          offset + distance = position := by
        constructor
        · rintro ⟨_, _, _, he, hd⟩
          simp only [Event.start.injEq, Option.some.injEq] at he
          rw [he.2.1]
          exact hd
        · intro hd
          exact ⟨kind, distance, field, rfl, hd⟩
      rw [hown, Array.size_setIfInBounds]
      constructor
      · rintro ((hm | ⟨rfl, hs⟩) | ⟨hs, hc⟩)
        · exact Or.inl hm
        · exact Or.inr ⟨hs, Or.inl rfl⟩
        · exact Or.inr ⟨hs, Or.inr hc⟩
      · rintro (hm | ⟨hs, rfl | hc⟩)
        · exact Or.inl (Or.inl hm)
        · exact Or.inl (Or.inr ⟨rfl, hs⟩)
        · exact Or.inr ⟨hs, hc⟩
    · have hne : ∀ kind distance field, event ≠ .start kind (some distance) field :=
        fun kind distance field he => hev ⟨kind, distance, field, he⟩
      have hnone : ¬ ∃ kind distance field, event = .start kind (some distance) field ∧
          offset + distance = position := by
        rintro ⟨kind, distance, field, he, _⟩
        exact hne kind distance field he
      rw [claim_other _ _ hne, ih]
      simp only [hnone, false_or]

theorem claimed_getD (events : List Event) (position : Nat) :
    (claimed events.toArray).getD position false = true ↔
      position < events.length ∧ ∃ source, Claims events source position := by
  have hz : (Array.replicate events.length false).getD position false = false := by
    rw [Array.getD_eq_getD_getElem?, Array.getElem?_replicate]
    split <;> rfl
  rw [claimed, List.foldl_toArray, foldl_claim, List.size_toArray, hz]
  simp

def Chains (events : List Event) (position : Nat) (starts : List (Kind × Option Field)) : Prop :=
  ∀ limit, starts.length ≤ limit → chain events.toArray position limit = starts

theorem chain_last {events : List Event} {position : Nat} {kind : Kind} {field : Option Field}
    (h : events[position]? = some (.start kind none field)) (hk : kind ≠ .tombstone) :
    Chains events position [(kind, field)] := by
  intro limit hl
  cases limit with
  | zero => simp at hl
  | succ limit => simp [chain, h, hk]

theorem chain_link {events : List Event} {position distance : Nat} {kind : Kind}
    {field : Option Field} {starts : List (Kind × Option Field)}
    (h : events[position]? = some (.start kind (some distance) field)) (hk : kind ≠ .tombstone)
    (hc : Chains events (position + distance) starts) :
    Chains events position ((kind, field) :: starts) := by
  intro limit hl
  cases limit with
  | zero => simp at hl
  | succ limit =>
    have := hc limit (by simpa using hl)
    simp [chain, h, hk, this]

end Events

namespace Growth

open Events

/-- An entry of a bracket behind other entries stands before it, opens it, lies in it or closes
it. -/
theorem getElem?_bracket {front back : List Event} {first last event : Event} {position : Nat}
    (h : (front ++ first :: (back ++ [last]))[position]? = some event) :
    front[position]? = some event ∨ (position = front.length ∧ first = event) ∨
      (∃ inner, position = front.length + 1 + inner ∧ back[inner]? = some event) ∨
      last = event := by
  rw [List.getElem?_append] at h
  split at h
  · exact Or.inl h
  · rename_i hge
    right
    rw [List.getElem?_cons] at h
    split at h
    · rename_i hz
      exact Or.inl ⟨by omega, by simpa using h⟩
    · right
      rw [List.getElem?_append] at h
      split at h
      · exact Or.inl ⟨position - front.length - 1, by omega, h⟩
      · right
        have hm := List.mem_of_getElem? h
        simp only [List.mem_singleton] at hm
        exact hm.symm

def Leads (events : List Event) (position distance : Nat) : Prop :=
  0 < distance ∧ ∃ kind forward field,
    events[position + distance]? = some (.start kind forward field)

theorem Leads.append {events : List Event} {position distance : Nat}
    (h : Leads events position distance) (more : List Event) :
    Leads (events ++ more) position distance := by
  obtain ⟨hd, kind, forward, field, ht⟩ := h
  refine ⟨hd, kind, forward, field, ?_⟩
  rw [List.getElem?_append_left (List.getElem?_eq_some_iff.mp ht).1, ht]

theorem Leads.shift {events : List Event} {position distance : Nat}
    (h : Leads events position distance) (front : List Event) :
    Leads (front ++ events) (front.length + position) distance := by
  obtain ⟨hd, kind, forward, field, ht⟩ := h
  refine ⟨hd, kind, forward, field, ?_⟩
  rw [List.getElem?_append_right (by omega),
    show front.length + position + distance - front.length = position + distance by omega, ht]

theorem Leads.bracket {front back : List Event} {first last : Event} {inner distance : Nat}
    (h : Leads back inner distance) :
    Leads (front ++ first :: (back ++ [last])) (front.length + 1 + inner) distance := by
  have hs := (h.append [last]).shift (front ++ [first])
  simpa [Nat.add_assoc] using hs

/-- A pointer of a growth is the one of its last node, or it leads on to a start of the growth. -/
theorem pointer_leads {growth : Growth} (h : growth.IsSound) {forward : Option Nat}
    {position distance : Nat} {kind : Kind} {field : Option Field}
    (hp : (growth.events forward)[position]? = some (.start kind (some distance) field)) :
    (growth.isNode = true ∧ position + growth.lastSize = growth.size ∧ forward = some distance) ∨
      Leads (growth.events forward) position distance := by
  induction growth generalizing forward position with
  | nil => simp [events] at hp
  | token before held slot ih =>
    rw [events, List.getElem?_append] at hp
    split at hp
    · rcases ih h hp with ⟨_, _, hn⟩ | hl
      · simp at hn
      · exact Or.inr (hl.append _)
    · have := List.mem_of_getElem? hp
      simp at this
  | blank before ih =>
    rw [events, List.getElem?_append] at hp
    split at hp
    · rcases ih h hp with ⟨_, _, hn⟩ | hl
      · simp at hn
      · exact Or.inr (hl.append _)
    · have := List.mem_of_getElem? hp
      simp [Event.blank] at this
  | node before own slot body ihb ihc =>
    rw [events] at hp
    rcases getElem?_bracket hp with hf | ⟨rfl, he⟩ | ⟨inner, rfl, hi⟩ | he
    · rcases ihb h.1 hf with ⟨_, _, hn⟩ | hl
      · simp at hn
      · exact Or.inr (hl.append _)
    · -- the start of the last node is the one that may point out of the growth
      simp only [Event.start.injEq] at he
      exact Or.inl ⟨rfl, by simp [lastSize, size, length_events], he.2.1⟩
    · rcases ihc h.2.2 hi with ⟨_, _, hn⟩ | hl
      · simp at hn
      · exact Or.inr hl.bracket
    · simp at he
  | wrap before own slot body ihb ihc =>
    rw [events] at hp
    rcases getElem?_bracket hp with hf | ⟨rfl, he⟩ | ⟨inner, rfl, hi⟩ | he
    · rcases ihb h.1 hf with ⟨_, hpos, hn⟩ | hl
      · -- the node before is the one that the new node was opened in front of
        simp only [Option.some.injEq] at hn
        have htwo := lastSize_pos h.2.1
        refine Or.inr ⟨by omega, own, forward, slot, ?_⟩
        rw [events, List.getElem?_append_right (by rw [length_events]; omega), length_events,
          show position + distance - before.size = 0 by omega, List.getElem?_cons_zero]
      · exact Or.inr (hl.append _)
    · simp only [Event.start.injEq] at he
      exact Or.inl ⟨rfl, by simp [lastSize, size, length_events], he.2.1⟩
    · rcases ihc h.2.2.2 hi with ⟨_, _, hn⟩ | hl
      · simp at hn
      · exact Or.inr hl.bracket
    · simp at he

theorem isLinked_events {growth : Growth} (h : growth.IsSound) :
    Events.isLinked (growth.events none).toArray = true := by
  rw [Events.isLinked, List.all_eq_true]
  intro position _
  split
  · rename_i kind distance field hp
    rw [List.getElem?_toArray] at hp
    rcases pointer_leads h hp with ⟨_, _, hn⟩ | ⟨_, kind', forward', field', ht⟩
    · simp at hn
    · simp [Events.startsAt, ht]
  · rfl

def startAll (starts : List (Kind × Option Field)) : List BuildStep :=
  starts.reverse.map fun (kind, field) => .start kind field

def lead (starts : List (Kind × Option Field)) (shapes : List Shape) : List BuildStep :=
  Shape.stepsAll shapes.dropLast ++ (startAll starts ++ Shape.stepsAll shapes.getLast?.toList)

theorem lead_nil (shapes : List Shape) : lead [] shapes = Shape.stepsAll shapes := by
  by_cases h : shapes = []
  · simp [lead, startAll, h]
  · rw [lead, List.getLast?_eq_some_getLast h, Option.toList_some]
    simp only [startAll, List.reverse_nil, List.map_nil, List.nil_append]
    rw [← Shape.stepsAll_append, List.dropLast_concat_getLast h]

theorem lead_snoc (starts : List (Kind × Option Field)) (front : List Shape) (last : Shape) :
    lead starts (front ++ [last]) =
      Shape.stepsAll front ++ (startAll starts ++ last.steps) := by
  simp [lead, Shape.stepsAll_singleton]

theorem startAll_cons (kind : Kind) (field : Option Field) (starts : List (Kind × Option Field)) :
    startAll ((kind, field) :: starts) = startAll starts ++ [.start kind field] := by
  simp [startAll]

def IsFree (events : List Event) (first size : Nat) : Prop :=
  ∀ source target, source < first → Claims events source target →
    target < first ∨ first + size ≤ target

theorem IsFree.mono {events : List Event} {first size smaller : Nat}
    (h : IsFree events first size) (hle : smaller ≤ size) : IsFree events first smaller := by
  intro source target hs hc
  rcases h source target hs hc with hlt | hge
  · exact Or.inl hlt
  · exact Or.inr (by omega)

def LeadsOut (events : List Event) (first : Nat) (growth : Growth) (forward : Option Nat)
    (starts : List (Kind × Option Field)) : Prop :=
  (forward = none ∧ starts = []) ∨
    (forward = some growth.lastSize ∧ growth.isNode = true ∧
      Chains events (first + growth.size) starts)

theorem getElem?_within {whole front middle back : List Event}
    (h : whole = front ++ (middle ++ back))
    {position : Nat} (hp : position < middle.length) :
    whole[front.length + position]? = middle[position]? := by
  rw [h, List.getElem?_append_right (by omega), Nat.add_sub_cancel_left,
    List.getElem?_append_left hp]

/-- A pointer out of a growth that stands somewhere in a list of events leads to a later place of
the growth, or right behind it. -/
theorem claims_within {whole front back : List Event} {growth : Growth} {forward : Option Nat}
    {starts : List (Kind × Option Field)} (h : growth.IsSound)
    (hw : whole = front ++ (growth.events forward ++ back))
    (hout : LeadsOut whole front.length growth forward starts) {source target : Nat}
    (hs : front.length ≤ source) (hs' : source < front.length + growth.size)
    (hc : Claims whole source target) :
    source < target ∧ (target < front.length + growth.size ∨
      (target = front.length + growth.size ∧ source + growth.lastSize = front.length + growth.size ∧
        forward = some growth.lastSize)) := by
  obtain ⟨kind, distance, field, hg, rfl⟩ := hc
  obtain ⟨position, rfl⟩ := Nat.exists_eq_add_of_le hs
  rw [getElem?_within hw (by rw [length_events]; omega)] at hg
  rcases pointer_leads h hg with ⟨hn, hpos, hf⟩ | ⟨hd, kind', forward', field', ht⟩
  · rcases hout with ⟨hnone, _⟩ | ⟨hsome, _, _⟩
    · simp [hnone] at hf
    · rw [hsome] at hf
      simp only [Option.some.injEq] at hf
      have htwo := lastSize_pos hn
      exact ⟨by omega, Or.inr ⟨by omega, by omega, hsome⟩⟩
  · have hlt := (List.getElem?_eq_some_iff.mp ht).1
    rw [length_events] at hlt
    exact ⟨by omega, Or.inl (by omega)⟩

theorem stepsAt_token {whole : List Event} {marks : Array Bool} {position : Nat} {held : Token}
    {field : Option Field} (h : whole[position]? = some (.token held field)) :
    stepsAt whole.toArray marks position = (Shape.leaf held field).steps := by
  simp [stepsAt, h, Shape.steps]

theorem stepsAt_blank {whole : List Event} {marks : Array Bool} {position : Nat}
    (h : whole[position]? = some .blank) : stepsAt whole.toArray marks position = [] := by
  simp [stepsAt, h, Event.blank]

theorem stepsAt_finish {whole : List Event} {marks : Array Bool} {position : Nat}
    (h : whole[position]? = some .finish) : stepsAt whole.toArray marks position = [.finish] := by
  simp [stepsAt, h]

/-- A start that a pointer leads to makes no step of its own. -/
theorem stepsAt_claimed {whole : List Event} {position source : Nat} {kind : Kind}
    {forward : Option Nat} {field : Option Field}
    (h : whole[position]? = some (.start kind forward field)) (hc : Claims whole source position) :
    stepsAt whole.toArray (claimed whole.toArray) position = [] := by
  have hm : (claimed whole.toArray).getD position false = true :=
    (claimed_getD whole position).mpr ⟨(List.getElem?_eq_some_iff.mp h).1, source, hc⟩
  simp [stepsAt, h, hm]

/-- Any other start makes the steps of all nodes that open there. -/
theorem stepsAt_free {whole : List Event} {position : Nat} {kind : Kind}
    {forward : Option Nat} {field : Option Field} {starts : List (Kind × Option Field)}
    (h : whole[position]? = some (.start kind forward field)) (hk : kind ≠ .tombstone)
    (hc : ∀ source, ¬ Claims whole source position) (hl : starts.length ≤ whole.length)
    (hs : Chains whole position starts) :
    stepsAt whole.toArray (claimed whole.toArray) position = startAll starts := by
  have hm : (claimed whole.toArray).getD position false = false := by
    rw [← Bool.not_eq_true, claimed_getD]
    rintro ⟨_, source, hsource⟩
    exact hc source hsource
  have hchain := hs whole.length hl
  simp [stepsAt, h, hk, hm, hchain, startAll]

/-- Nothing in front of the body of a node points into it. -/
theorem isFree_body {whole front back : List Event} {before body : Growth} {kind : Kind}
    {field : Option Field} {link forward : Option Nat} {starts : List (Kind × Option Field)}
    (h : before.IsSound)
    (hw : whole = front ++ (before.events link ++
      .start kind forward field :: (body.events none ++ .finish :: back)))
    (hfree : IsFree whole front.length (before.size + (body.size + 2)))
    (hlink : LeadsOut whole front.length before link starts)
    (hf : forward = none ∨ forward = some (body.size + 2)) :
    IsFree whole (front.length + before.size + 1) body.size := by
  intro source target hs hc
  by_cases hfront : source < front.length
  · rcases hfree source target hfront hc with hlt | hge
    · exact Or.inl (by omega)
    · exact Or.inr (by omega)
  · by_cases hbefore : source < front.length + before.size
    · have hin := (claims_within h hw hlink (by omega) hbefore hc).2
      exact Or.inl (by omega)
    · obtain ⟨kind', distance, field', hg, rfl⟩ := hc
      have he : source = (front ++ before.events link).length := by
        rw [List.length_append, length_events]
        omega
      rw [hw, ← List.append_assoc, he, List.getElem?_append_right (Nat.le_refl _), Nat.sub_self,
        List.getElem?_cons_zero, Option.some.injEq, Event.start.injEq] at hg
      rcases hf with hf | hf
      · rw [hf] at hg
        simp at hg
      · rw [hf, Option.some.injEq] at hg
        exact Or.inr (by omega)

/-- The steps of a body and the end of its node, given those of the body. -/
theorem flatMap_bracket {whole front back : List Event} {body : Growth} {first : Event}
    {marks : Array Bool}
    (hw : whole = front ++ first :: (body.events none ++ .finish :: back))
    (hb : (List.range' (front.length + 1) body.size).flatMap (stepsAt whole.toArray marks) =
      Shape.stepsAll body.shapes) :
    (List.range' front.length (body.size + 2)).flatMap (stepsAt whole.toArray marks) =
      stepsAt whole.toArray marks front.length ++ (Shape.stepsAll body.shapes ++ [.finish]) := by
  have hlast : whole[front.length + 1 + body.size]? = some .finish := by
    rw [hw, List.getElem?_append_right (by omega),
      show front.length + 1 + body.size - front.length = body.size + 1 by omega,
      List.getElem?_cons_succ, List.getElem?_append_right (Nat.le_of_eq (length_events _ _))]
    simp [length_events]
  have hrange : List.range' front.length (body.size + 2) =
      front.length :: (List.range' (front.length + 1) body.size ++
        [front.length + 1 + body.size]) := by
    rw [show body.size + 2 = (body.size + 1) + 1 by omega, List.range'_succ, List.range'_concat]
    simp
  rw [hrange, List.flatMap_cons, List.flatMap_append, hb, List.flatMap_singleton,
    stepsAt_finish hlast]

/-- The steps of a node behind a growth: those of the growth, of its own start, of its body and of
its end. -/
theorem flatMap_node {whole front back : List Event} {before body : Growth} {kind : Kind}
    {field : Option Field} {link forward : Option Nat} {marks : Array Bool}
    {steps : List BuildStep}
    (hw : whole = front ++ (before.events link ++
      .start kind forward field :: (body.events none ++ .finish :: back)))
    (hbefore : (List.range' front.length before.size).flatMap (stepsAt whole.toArray marks) = steps)
    (hbody : (List.range' (front.length + before.size + 1) body.size).flatMap
      (stepsAt whole.toArray marks) = Shape.stepsAll body.shapes) :
    (List.range' front.length (before.size + (body.size + 2))).flatMap
        (stepsAt whole.toArray marks) =
      steps ++ (stepsAt whole.toArray marks (front.length + before.size) ++
        (Shape.stepsAll body.shapes ++ [.finish])) := by
  have hp : (front ++ before.events link).length = front.length + before.size := by
    rw [List.length_append, length_events]
  have hw' : whole = (front ++ before.events link) ++
      .start kind forward field :: (body.events none ++ .finish :: back) := by
    rw [hw, List.append_assoc]
  rw [← hp] at hbody
  have hb := flatMap_bracket hw' hbody
  rw [hp] at hb
  rw [← List.range'_append_1, List.flatMap_append, hbefore, hb]

theorem getElem?_own {whole front back : List Event} {before : Growth} {first : Event}
    {link : Option Nat} (hw : whole = front ++ (before.events link ++ first :: back)) :
    whole[front.length + before.size]? = some first := by
  rw [hw, List.getElem?_append_right (Nat.le_add_right _ _), Nat.add_sub_cancel_left,
    List.getElem?_append_right (Nat.le_of_eq (length_events _ _)), length_events, Nat.sub_self,
    List.getElem?_cons_zero]

/-- The starts that open where a node starts: its own, and those that its pointer leads to. -/
theorem chains_own {whole : List Event} {first own : Nat} {growth : Growth} {kind : Kind}
    {field : Option Field} {forward : Option Nat} {starts : List (Kind × Option Field)}
    (hk : kind ≠ .tombstone) (hg : whole[own]? = some (.start kind forward field))
    (hout : LeadsOut whole first growth forward starts)
    (hown : own + growth.lastSize = first + growth.size) :
    Chains whole own ((kind, field) :: starts) := by
  rcases hout with ⟨rfl, rfl⟩ | ⟨rfl, _, hc⟩
  · exact chain_last hg hk
  · exact chain_link hg hk (hown ▸ hc)

theorem flatMap_concat (whole : List Event) (marks : Array Bool) (first size : Nat) :
    (List.range' first (size + 1)).flatMap (stepsAt whole.toArray marks) =
      (List.range' first size).flatMap (stepsAt whole.toArray marks) ++
        stepsAt whole.toArray marks (first + size) := by
  rw [List.range'_concat, List.flatMap_append, List.flatMap_singleton, Nat.one_mul]

/-- Nothing points to a node that is not wrapped: not from the front, not from the growth before,
and not from behind. -/
theorem not_claims_node {whole front back : List Event} {before body : Growth} {kind : Kind}
    {field : Option Field} {forward : Option Nat} {starts : List (Kind × Option Field)}
    (h : (Growth.node before kind field body).IsSound)
    (hw : whole = front ++ ((Growth.node before kind field body).events forward ++ back))
    (hfree : IsFree whole front.length (Growth.node before kind field body).size)
    (hout : LeadsOut whole front.length (.node before kind field body) forward starts)
    (source : Nat) : ¬ Claims whole source (front.length + before.size) := by
  have hw' : whole = front ++ (before.events none ++
      .start kind forward field :: (body.events none ++ .finish :: back)) := by
    rw [hw, events]
    simp
  have hlink : LeadsOut whole front.length before none [] := Or.inl ⟨rfl, rfl⟩
  intro hc
  by_cases hs : source < front.length
  · rcases hfree source _ hs hc with hlt | hge
    · omega
    · rw [size] at hge
      omega
  · by_cases hs' : source < front.length + before.size
    · rcases claims_within h.1 hw' hlink (by omega) hs' hc with ⟨_, hlt | ⟨_, _, hn⟩⟩
      · omega
      · simp at hn
    · by_cases hown : source = front.length + before.size
      · have hin := claims_within h hw hout (by omega) (by rw [size]; omega) hc
        omega
      · obtain ⟨_, distance, _, _, he⟩ := hc
        omega

/-- The steps of a growth that stands anywhere in a list of events. -/
theorem flatMap_stepsAt {whole front back : List Event} {growth : Growth} {forward : Option Nat}
    {starts : List (Kind × Option Field)} (h : growth.IsSound)
    (hw : whole = front ++ (growth.events forward ++ back))
    (hfree : IsFree whole front.length growth.size)
    (hout : LeadsOut whole front.length growth forward starts)
    (hlen : starts.length + (front.length + growth.size) ≤ whole.length) :
    (List.range' front.length growth.size).flatMap
      (stepsAt whole.toArray (claimed whole.toArray)) = lead starts growth.shapes := by
  -- on the last event of a growth, or the last node: the pointers of nodes lead to the right, so
  -- what opens at a node is known once all behind it is
  induction growth generalizing front back forward starts with
  | nil =>
    rcases hout with ⟨_, rfl⟩ | ⟨_, hn, _⟩
    · rw [lead_nil]
      simp [size, shapes]
    · simp [isNode] at hn
  | token before held field ih =>
    rcases hout with ⟨rfl, rfl⟩ | ⟨_, hn, _⟩
    · have hw' : whole = front ++ (before.events none ++ .token held field :: back) := by
        rw [hw, events]
        simp
      have hlink : LeadsOut whole front.length before none [] := Or.inl ⟨rfl, rfl⟩
      have hbefore := ih h hw' (hfree.mono (Nat.le_succ _)) hlink
        (by rw [size] at hlen; simp only [List.length_nil] at hlen ⊢; omega)
      rw [size, flatMap_concat, hbefore, stepsAt_token (getElem?_own hw'), lead_nil, lead_nil,
        shapes, Shape.stepsAll_append, Shape.stepsAll_singleton]
    · simp [isNode] at hn
  | blank before ih =>
    rcases hout with ⟨rfl, rfl⟩ | ⟨_, hn, _⟩
    · have hw' : whole = front ++ (before.events none ++ .blank :: back) := by
        rw [hw, events]
        simp
      have hlink : LeadsOut whole front.length before none [] := Or.inl ⟨rfl, rfl⟩
      have hbefore := ih h hw' (hfree.mono (Nat.le_succ _)) hlink
        (by rw [size] at hlen; simp only [List.length_nil] at hlen ⊢; omega)
      rw [size, flatMap_concat, hbefore, stepsAt_blank (getElem?_own hw'), List.append_nil, shapes]
    · simp [isNode] at hn
  | node before kind field body ihb ihc =>
    have hw' : whole = front ++ (before.events none ++
        .start kind forward field :: (body.events none ++ .finish :: back)) := by
      rw [hw, events]
      simp
    have hlink : LeadsOut whole front.length before none [] := Or.inl ⟨rfl, rfl⟩
    have hf : forward = none ∨ forward = some (body.size + 2) :=
      hout.imp (fun hn => hn.1) (fun hs => hs.1)
    have hbefore := ihb h.1 hw' (hfree.mono (Nat.le_add_right _ _)) hlink
      (by rw [size] at hlen; simp only [List.length_nil]; omega)
    have hinner : whole = (front ++ before.events none ++ [.start kind forward field]) ++
        (body.events none ++ .finish :: back) := by
      rw [hw']
      simp
    have hbody := ihc h.2.2 hinner
      (by simpa [length_events, Nat.add_assoc] using isFree_body h.1 hw' hfree hlink hf)
      (Or.inl ⟨rfl, rfl⟩)
      (by
        rw [size] at hlen
        simp only [List.length_nil, List.length_append, List.length_cons, length_events]
        omega)
    rw [lead_nil] at hbefore hbody
    have hg := getElem?_own hw'
    have hchain := chains_own h.2.1 hg hout
      (by simp only [lastSize, size]; omega)
    have hstep := stepsAt_free hg h.2.1 (not_claims_node h hw hfree hout)
      (by rw [size] at hlen; rw [List.length_cons]; omega) hchain
    rw [size, flatMap_node hw' hbefore (by simpa [length_events, Nat.add_assoc] using hbody), hstep,
      startAll_cons, shapes, lead_snoc, Shape.steps]
    simp
  | wrap before kind field body ihb ihc =>
    have hw' : whole = front ++ (before.events (some before.lastSize) ++
        .start kind forward field :: (body.events none ++ .finish :: back)) := by
      rw [hw, events]
      simp
    have hg := getElem?_own hw'
    have hchain := chains_own h.2.2.1 hg hout
      (by simp only [lastSize, size]; omega)
    have hlink : LeadsOut whole front.length before (some before.lastSize)
        ((kind, field) :: starts) := Or.inr ⟨rfl, h.2.1, hchain⟩
    have hf : forward = none ∨ forward = some (body.size + 2) :=
      hout.imp (fun hn => hn.1) (fun hs => hs.1)
    have hbefore := ihb h.1 hw' (hfree.mono (Nat.le_add_right _ _)) hlink
      (by rw [size] at hlen; simp only [List.length_cons]; omega)
    have hinner : whole =
        (front ++ before.events (some before.lastSize) ++ [.start kind forward field]) ++
          (body.events none ++ .finish :: back) := by
      rw [hw']
      simp
    have hbody := ihc h.2.2.2 hinner
      (by simpa [length_events, Nat.add_assoc] using isFree_body h.1 hw' hfree hlink hf)
      (Or.inl ⟨rfl, rfl⟩)
      (by
        rw [size] at hlen
        simp only [List.length_nil, List.length_append, List.length_cons, length_events]
        omega)
    rw [lead_nil] at hbody
    -- the node before points to this start, which therefore opens there
    have hclaimed : Claims whole (front.length + (before.size - before.lastSize))
        (front.length + before.size) := by
      obtain ⟨inner, kind', field', tail, hevents, hsize, _⟩ := events_of_isNode h.2.1
      refine ⟨kind', before.lastSize, field', ?_, by omega⟩
      rw [getElem?_within hw' (by rw [length_events]; have := lastSize_pos h.2.1; omega), hevents,
        List.getElem?_append_right (by omega),
        show before.size - before.lastSize - inner.length = 0 by omega, List.getElem?_cons_zero]
    obtain ⟨shapesFront, last, hshapes⟩ : ∃ shapesFront last, before.shapes =
        shapesFront ++ [last] :=
      ⟨_, _, (List.dropLast_concat_getLast (shapes_ne_nil h.2.1)).symm⟩
    rw [size, flatMap_node hw' hbefore (by simpa [length_events, Nat.add_assoc] using hbody),
      stepsAt_claimed hg hclaimed, shapes, hshapes, lead_snoc, lead_snoc, startAll_cons,
        Shape.steps]
    simp [Shape.stepsAll]

/-- The steps of a growth are those of its shapes. -/
theorem steps_events {growth : Growth} (h : growth.IsSound) :
    Events.steps (growth.events none).toArray = Shape.stepsAll growth.shapes := by
  have hw : growth.events none = [] ++ (growth.events none ++ []) := by simp
  have hlink : LeadsOut (growth.events none) ([] : List Event).length growth none [] :=
    Or.inl ⟨rfl, rfl⟩
  have hs := flatMap_stepsAt h hw (fun _ _ hlt => absurd hlt (Nat.not_lt_zero _)) hlink
    (by simp [length_events])
  rw [lead_nil] at hs
  rw [Events.steps, List.size_toArray, length_events, List.range_eq_range']
  exact hs

end Growth

end ScriptTree

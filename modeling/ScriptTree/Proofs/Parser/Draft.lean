import ScriptTree.Parser.State
import ScriptTree.Proofs.Tree.Shape

/-!
Drafts: a tree that is put together directly, while nodes are begun and ended. A node that is
completed takes what was put into it since it began; one that is given up leaves what was put into
it; one that is begun in front of a node takes that node and all behind it. What cannot be done
directly is refused.
-/

namespace ScriptTree

/-- A part of a draft: a token in a slot, or a node in a slot, which is known by its mark. -/
inductive Sketch where
  | leaf (token : Token) (field : Option Field)
  | node (mark : Nat) (kind : Kind) (field : Option Field) (children : List Sketch)
  deriving Repr, Inhabited

namespace Sketch

mutual

def shape : Sketch → Shape
  | .leaf token field => .leaf token field
  | .node _ kind field children => .node kind field (shapeAll children)

def shapeAll : List Sketch → List Shape
  | [] => []
  | sketch :: rest => sketch.shape :: shapeAll rest

end

mutual

def fill (mark : Nat) (slot : Field) : Sketch → Sketch
  | .leaf token field => .leaf token field
  | .node own kind field children =>
    .node own kind (if own = mark then some slot else field) (fillAll mark slot children)

def fillAll (mark : Nat) (slot : Field) : List Sketch → List Sketch
  | [] => []
  | sketch :: rest => sketch.fill mark slot :: fillAll mark slot rest

end

mutual

def marks : Sketch → List Nat
  | .leaf _ _ => []
  | .node mark _ _ children => mark :: marksAll children

def marksAll : List Sketch → List Nat
  | [] => []
  | sketch :: rest => sketch.marks ++ marksAll rest

end

def isAt (mark : Nat) : Sketch → Bool
  | .leaf _ _ => false
  | .node own _ _ _ => own == mark

end Sketch

structure Frame where
  mark : Nat
  precedes : Bool
  outer : List Sketch
  deriving Repr, Inhabited

/-- A tree in the making: how many events have been recorded for it, the nodes that have begun,
from the inside out, and what was put into the innermost of them so far. -/
structure Draft where
  size : Nat
  opened : List Frame
  elements : List Sketch
  deriving Repr, Inhabited

namespace Draft

open Sketch

def empty : Draft :=
  ⟨0, [], []⟩

/-- Begins a node. Its mark is the number of events before it. -/
def start (draft : Draft) : Draft :=
  ⟨draft.size + 1, ⟨draft.size, false, draft.elements⟩ :: draft.opened, []⟩

def push (draft : Draft) (token : Token) (field : Option Field) : Draft :=
  ⟨draft.size + 1, draft.opened, draft.elements ++ [.leaf token field]⟩

/-- Completes the innermost node, which must have the mark: it takes what was put down since it
began. -/
def complete (draft : Draft) (mark : Nat) (kind : Kind) : Option Draft :=
  match draft.opened with
  | [] => none
  | frame :: opened =>
    if frame.mark = mark ∧ kind ≠ .tombstone then
      some ⟨draft.size + 1, opened, frame.outer ++ [.node mark kind none draft.elements]⟩
    else
      none

/-- Gives up the innermost node, which must have the mark: what was put down since it began is left
where it is. If the node is what was recorded last, its record goes away. -/
def abandon (draft : Draft) (mark : Nat) : Option Draft :=
  match draft.opened with
  | [] => none
  | frame :: opened =>
    if frame.mark = mark then
      some ⟨if mark + 1 = draft.size then mark else draft.size, opened,
        frame.outer ++ draft.elements⟩
    else
      none

/-- Whether the innermost node has just begun in front of another one. That one refers to the record
of the innermost node then, which would go away if the node was given up. -/
def isReferred (draft : Draft) : Bool :=
  draft.opened.head?.any fun frame => frame.precedes && frame.mark + 1 == draft.size

def fill (draft : Draft) (mark : Nat) (slot : Field) : Option Draft :=
  let opened := draft.opened.map fun frame =>
    { frame with outer := fillAll mark slot frame.outer }
  if mark ∈ marksAll draft.elements ∨ ∃ frame ∈ draft.opened, mark ∈ marksAll frame.outer then
    some ⟨draft.size, opened, fillAll mark slot draft.elements⟩
  else
    none

/-- Begins a node with the mark `fresh` in front of the node of a mark, wherever that one lies
directly in a node that has not ended. It is refused if another node has begun in front of that one
and has not ended. -/
def insertFrame (mark fresh : Nat) (opened : List Frame) (elements : List Sketch) :
    Option (List Frame × List Sketch) :=
  if elements.any (·.isAt mark) then
    let before := elements.takeWhile fun sketch => !sketch.isAt mark
    let behind := elements.dropWhile fun sketch => !sketch.isAt mark
    if before.isEmpty && opened.head?.any (·.precedes) then none
    else some (⟨fresh, true, before⟩ :: opened, behind)
  else
    match opened with
    | [] => none
    | frame :: outer =>
      (insertFrame mark fresh outer frame.outer).map fun (outer, before) =>
        ({ frame with outer := before } :: outer, elements)

def precede (draft : Draft) (mark : Nat) : Option Draft :=
  (insertFrame mark draft.size draft.opened draft.elements).map fun (opened, elements) =>
    ⟨draft.size + 1, opened, elements⟩

section Inversion

variable {draft draft' : Draft} {mark : Nat}

theorem complete_eq {kind : Kind} (h : draft.complete mark kind = some draft') :
    ∃ frame opened, draft.opened = frame :: opened ∧ frame.mark = mark ∧ kind ≠ .tombstone ∧
      draft' = ⟨draft.size + 1, opened, frame.outer ++ [.node mark kind none draft.elements]⟩ := by
  unfold complete at h
  split at h
  · cases h
  · next frame opened hopened =>
    split at h
    · next hlegal => exact ⟨frame, opened, hopened, hlegal.1, hlegal.2, (Option.some.inj h).symm⟩
    · cases h

theorem abandon_eq (h : draft.abandon mark = some draft') :
    ∃ frame opened, draft.opened = frame :: opened ∧ frame.mark = mark ∧
      draft' = ⟨if mark + 1 = draft.size then mark else draft.size, opened,
        frame.outer ++ draft.elements⟩ := by
  unfold abandon at h
  split at h
  · cases h
  · next frame opened hopened =>
    split at h
    · next hlegal => exact ⟨frame, opened, hopened, hlegal, (Option.some.inj h).symm⟩
    · cases h

theorem fill_eq {slot : Field} (h : draft.fill mark slot = some draft') :
    (mark ∈ marksAll draft.elements ∨ ∃ frame ∈ draft.opened, mark ∈ marksAll frame.outer) ∧
      draft' = ⟨draft.size,
        draft.opened.map fun frame => { frame with outer := fillAll mark slot frame.outer },
        fillAll mark slot draft.elements⟩ := by
  unfold fill at h
  dsimp only at h
  split at h
  · next hmem => exact ⟨hmem, (Option.some.inj h).symm⟩
  · cases h

theorem precede_eq (h : draft.precede mark = some draft') : ∃ opened elements,
    insertFrame mark draft.size draft.opened draft.elements = some (opened, elements) ∧
      draft' = ⟨draft.size + 1, opened, elements⟩ := by
  obtain ⟨⟨opened, elements⟩, hinsert, rfl⟩ := Option.map_eq_some_iff.mp h
  exact ⟨opened, elements, hinsert, rfl⟩

end Inversion

end Draft

inductive Entry where
  | token (token : Token) (field : Option Field)
  | opening (mark : Nat)
  | start (mark : Nat) (kind : Kind) (field : Option Field)
  | finish
  deriving Repr, Inhabited

namespace Entry

def steps : Entry → List BuildStep
  | .token held field => (Shape.leaf held field).steps
  | .opening _ => []
  | .start _ kind field => [.start kind field]
  | .finish => [.finish]

def token? : Entry → Option Token
  | .token held _ => some held
  | .opening _ => none
  | .start _ _ _ => none
  | .finish => none

def fill (mark : Nat) (slot : Field) : Entry → Entry
  | .start own kind field => .start own kind (if own = mark then some slot else field)
  | entry => entry

def isEnd : Entry → Bool
  | .token _ _ => true
  | .finish => true
  | _ => false

theorem length_steps_le (entries : List Entry) :
    (entries.flatMap steps).length ≤ entries.length := by
  induction entries with
  | nil => exact Nat.le_refl _
  | cons entry rest ih =>
    have hone : entry.steps.length ≤ 1 := by cases entry <;> simp [steps, Shape.steps]
    rw [List.flatMap_cons, List.length_append, List.length_cons]
    omega

theorem token?_fill (mark : Nat) (slot : Field) (entry : Entry) :
    (entry.fill mark slot).token? = entry.token? := by
  cases entry <;> rfl

end Entry

namespace Sketch

mutual

def entries : Sketch → List Entry
  | .leaf token field => [.token token field]
  | .node mark kind field children => .start mark kind field :: (entriesAll children ++ [.finish])

def entriesAll : List Sketch → List Entry
  | [] => []
  | sketch :: rest => sketch.entries ++ entriesAll rest

end

attribute [local simp] shape shapeAll fill fillAll marks marksAll entries entriesAll

@[simp] theorem entriesAll_nil : entriesAll [] = [] := by
  rw [entriesAll]

@[simp] theorem entriesAll_append (xs ys : List Sketch) :
    entriesAll (xs ++ ys) = entriesAll xs ++ entriesAll ys := by
  induction xs with
  | nil => simp
  | cons sketch rest ih => simp [ih]

theorem entriesAll_singleton (sketch : Sketch) : entriesAll [sketch] = sketch.entries := by
  simp

mutual

theorem flatMap_entries : ∀ sketch : Sketch, sketch.entries.flatMap Entry.steps = sketch.shape.steps
  | .leaf token field => by simp [Entry.steps]
  | .node mark kind field children => by
    simp [Entry.steps, Shape.steps, flatMap_entriesAll children]

/-- The steps of sketches are those of the shapes. -/
theorem flatMap_entriesAll : ∀ sketches : List Sketch,
    (entriesAll sketches).flatMap Entry.steps = Shape.stepsAll (shapeAll sketches)
  | [] => by simp
  | sketch :: rest => by
    simp [Shape.stepsAll, flatMap_entries sketch, flatMap_entriesAll rest]

end

mutual

theorem tokens_entries : ∀ sketch : Sketch,
    sketch.entries.filterMap Entry.token? = sketch.shape.tokens
  | .leaf token field => by simp [Entry.token?, Shape.tokens]
  | .node mark kind field children => by
    simp [List.filterMap_cons, Entry.token?, Shape.tokens, tokens_entriesAll children]

/-- The tokens of sketches are those of the shapes. -/
theorem tokens_entriesAll : ∀ sketches : List Sketch,
    (entriesAll sketches).filterMap Entry.token? = Shape.tokensAll (shapeAll sketches)
  | [] => by simp
  | sketch :: rest => by
    simp [Shape.tokensAll, tokens_entries sketch, tokens_entriesAll rest]

end

mutual

theorem entries_fill (mark : Nat) (slot : Field) : ∀ sketch : Sketch,
    (sketch.fill mark slot).entries = sketch.entries.map (Entry.fill mark slot)
  | .leaf token field => by simp [Entry.fill]
  | .node own kind field children => by
    simp [Entry.fill, entriesAll_fillAll mark slot children]

theorem entriesAll_fillAll (mark : Nat) (slot : Field) : ∀ sketches : List Sketch,
    entriesAll (fillAll mark slot sketches) = (entriesAll sketches).map (Entry.fill mark slot)
  | [] => by simp
  | sketch :: rest => by
    simp [entries_fill mark slot sketch, entriesAll_fillAll mark slot rest]

end

mutual

theorem start_mem_entries {mark : Nat} : ∀ {sketch : Sketch}, mark ∈ sketch.marks →
    ∃ kind field, Entry.start mark kind field ∈ sketch.entries
  | .leaf token field, h => by simp at h
  | .node own kind field children, h => by
    rw [marks, List.mem_cons] at h
    rcases h with rfl | h
    · exact ⟨kind, field, by simp⟩
    · obtain ⟨kind', field', hmem⟩ := start_mem_entriesAll h
      exact ⟨kind', field', by simp [hmem]⟩

/-- A node among sketches starts among their entries. -/
theorem start_mem_entriesAll {mark : Nat} : ∀ {sketches : List Sketch}, mark ∈ marksAll sketches →
    ∃ kind field, Entry.start mark kind field ∈ entriesAll sketches
  | [], h => by simp at h
  | sketch :: rest, h => by
    rw [marksAll, List.mem_append] at h
    rcases h with h | h
    · obtain ⟨kind, field, hmem⟩ := start_mem_entries h
      exact ⟨kind, field, by simp [hmem]⟩
    · obtain ⟨kind, field, hmem⟩ := start_mem_entriesAll h
      exact ⟨kind, field, by simp [hmem]⟩

end

/-- Sketches end with the end of an element. -/
theorem isEnd_of_getLast {sketches : List Sketch} (h : sketches ≠ []) :
    ∃ front last, entriesAll sketches = front ++ [last] ∧ last.isEnd = true := by
  obtain ⟨front, last, rfl⟩ := (List.eq_nil_or_concat sketches).resolve_left h
  rw [List.concat_eq_append, entriesAll_append, entriesAll_singleton]
  cases last with
  | leaf token field => exact ⟨_, _, rfl, rfl⟩
  | node mark kind field children =>
    exact ⟨entriesAll front ++ .start mark kind field :: entriesAll children, .finish,
      by simp [entries], rfl⟩

end Sketch

namespace Draft

open Sketch

def entriesOf : List Frame → List Sketch → List Entry
  | [], elements => entriesAll elements
  | frame :: outer, elements =>
    entriesOf outer frame.outer ++ .opening frame.mark :: entriesAll elements

def entries (draft : Draft) : List Entry :=
  entriesOf draft.opened draft.elements

theorem entriesOf_append (opened : List Frame) (xs ys : List Sketch) :
    entriesOf opened (xs ++ ys) = entriesOf opened xs ++ entriesAll ys := by
  cases opened <;> simp [entriesOf]

theorem entries_start (draft : Draft) :
    draft.start.entries = draft.entries ++ [.opening draft.size] := by
  simp [entries, start, entriesOf]

theorem entries_push (draft : Draft) (token : Token) (field : Option Field) :
    (draft.push token field).entries = draft.entries ++ [.token token field] := by
  simp [entries, push, entriesOf_append, entriesAll_singleton, Sketch.entries]

section Ended

variable {draft : Draft} {frame : Frame} {opened : List Frame}

/-- The entries around the innermost node that has begun. -/
theorem entries_of_opened (h : draft.opened = frame :: opened) : draft.entries =
    entriesOf opened frame.outer ++ .opening frame.mark :: entriesAll draft.elements := by
  rw [entries, h, entriesOf]

theorem entries_completed (size : Nat) (kind : Kind) :
    entries ⟨size, opened, frame.outer ++ [.node frame.mark kind none draft.elements]⟩ =
      (entriesOf opened frame.outer ++ .start frame.mark kind none :: entriesAll draft.elements) ++
        [.finish] := by
  simp [entries, entriesOf_append, entriesAll_singleton, Sketch.entries]

theorem entries_abandoned (size : Nat) : entries ⟨size, opened, frame.outer ++ draft.elements⟩ =
    entriesOf opened frame.outer ++ entriesAll draft.elements := by
  rw [entries, entriesOf_append]

end Ended

theorem opening_mem_entriesOf {opened : List Frame} {elements : List Sketch} {frame : Frame}
    (h : frame ∈ opened) : .opening frame.mark ∈ entriesOf opened elements := by
  induction opened generalizing elements with
  | nil => cases h
  | cons first outer ih =>
    rcases List.mem_cons.mp h with rfl | h
    · simp [entriesOf]
    · simp [entriesOf, ih h]

theorem entriesOf_fill (mark : Nat) (slot : Field) (opened : List Frame) (elements : List Sketch) :
    entriesOf (opened.map fun frame => { frame with outer := fillAll mark slot frame.outer })
      (fillAll mark slot elements) = (entriesOf opened elements).map (Entry.fill mark slot) := by
  induction opened generalizing elements with
  | nil => simp [entriesOf, entriesAll_fillAll]
  | cons frame outer ih =>
    simp [entriesOf, entriesAll_fillAll, ih, Entry.fill]

/-- Every node of a draft has its start among the entries. -/
theorem start_mem_entriesOf {mark : Nat} {opened : List Frame} {elements : List Sketch}
    (h : mark ∈ marksAll elements ∨ ∃ frame ∈ opened, mark ∈ marksAll frame.outer) :
    ∃ kind field, Entry.start mark kind field ∈ entriesOf opened elements := by
  induction opened generalizing elements with
  | nil =>
    rcases h with h | ⟨frame, hframe, -⟩
    · exact start_mem_entriesAll h
    · cases hframe
  | cons first outer ih =>
    rcases h with h | ⟨frame, hframe, h⟩
    · obtain ⟨kind, field, hmem⟩ := start_mem_entriesAll h
      exact ⟨kind, field, by simp [entriesOf, hmem]⟩
    · have houter : mark ∈ marksAll first.outer ∨ ∃ frame ∈ outer, mark ∈ marksAll frame.outer := by
        rcases List.mem_cons.mp hframe with rfl | hframe
        · exact Or.inl h
        · exact Or.inr ⟨frame, hframe, h⟩
      obtain ⟨kind, field, hmem⟩ := ih houter
      exact ⟨kind, field, by simp [entriesOf, hmem]⟩

/-- The first element that is the node of a mark, with what stands before and behind it. -/
theorem exists_of_any {mark : Nat} {elements : List Sketch}
    (h : elements.any (·.isAt mark) = true) : ∃ kind field children rest,
      (elements.dropWhile fun sketch => !sketch.isAt mark) =
        .node mark kind field children :: rest := by
  induction elements with
  | nil => cases h
  | cons sketch rest ih =>
    -- only a node has a mark
    by_cases hat : sketch.isAt mark = true
    · cases sketch with
      | leaf token field => cases hat
      | node own kind field children =>
        obtain rfl : own = mark := by simpa [isAt] using hat
        exact ⟨kind, field, children, rest, by simp [isAt]⟩
    · have hrest : rest.any (·.isAt mark) = true := by simpa [hat] using h
      simpa [hat] using ih hrest

/-- What stands in front of the entries of the innermost node that has begun is the node itself. -/
theorem getLast_entriesOf_nil {opened : List Frame} {last : Entry}
    (h : last ∈ (entriesOf opened []).getLast?) :
    ∃ frame ∈ opened.head?, last = .opening frame.mark := by
  cases opened with
  | nil => simp [entriesOf] at h
  | cons frame outer =>
    simp only [entriesOf, entriesAll_nil, List.getLast?_concat, Option.mem_some_iff] at h
    exact ⟨frame, rfl, h.symm⟩

/-- A node that begins in front of another one stands right before its start. Before that, an
element ends, or a node has begun that did not begin in front of another one. -/
def Inserts (mark fresh : Nat) (opened : List Frame) (elements : List Sketch)
    (opened' : List Frame) (elements' : List Sketch) : Prop :=
  ∃ front kind field back,
    entriesOf opened elements = front ++ .start mark kind field :: back ∧
    entriesOf opened' elements' = front ++ .opening fresh :: .start mark kind field :: back ∧
    (∀ last ∈ front.getLast?, last.isEnd = true ∨
      ∃ frame ∈ opened, frame.precedes = false ∧ last = .opening frame.mark) ∧
    ∀ frame ∈ opened', frame.precedes = false →
      ∃ frame' ∈ opened, frame'.precedes = false ∧ frame'.mark = frame.mark

/-- The case where the node lies in the innermost node that has not ended. -/
theorem inserts_here {mark fresh : Nat} {opened opened' : List Frame}
    {elements elements' : List Sketch} (hany : elements.any (·.isAt mark) = true)
    (h : (if (elements.takeWhile fun sketch => !sketch.isAt mark).isEmpty &&
        opened.head?.any (·.precedes) then none
      else some (⟨fresh, true, elements.takeWhile fun sketch => !sketch.isAt mark⟩ :: opened,
        elements.dropWhile fun sketch => !sketch.isAt mark)) = some (opened', elements')) :
    Inserts mark fresh opened elements opened' elements' := by
  obtain ⟨kind, field, children, rest, hbehind⟩ := exists_of_any hany
  obtain ⟨before, hbefore⟩ :
      ∃ before, before = elements.takeWhile fun sketch => !sketch.isAt mark := ⟨_, rfl⟩
  have helements : before ++ .node mark kind field children :: rest = elements := by
    rw [hbefore, ← hbehind, List.takeWhile_append_dropWhile]
  rw [← hbefore, hbehind] at h
  split at h
  · cases h
  next hfree =>
  obtain ⟨rfl, rfl⟩ := Prod.mk.inj (Option.some.inj h)
  rw [← helements]
  refine ⟨entriesOf opened before, kind, field, entriesAll children ++ .finish :: entriesAll rest,
    ?_, ?_, ?_, ?_⟩
  · simp [entriesOf_append, entriesAll, Sketch.entries]
  · simp [entriesOf, entriesAll, Sketch.entries]
  · intro last hlast
    by_cases hnil : before = []
    · -- the node of the mark is the first one, so the frame around it must be free
      rw [hnil] at hlast hfree
      obtain ⟨frame, hframe, rfl⟩ := getLast_entriesOf_nil hlast
      rw [Option.mem_def.mp hframe] at hfree
      exact Or.inr ⟨frame, List.mem_of_head? hframe, by simpa using hfree, rfl⟩
    · obtain ⟨front, final, hentries, hend⟩ := isEnd_of_getLast hnil
      have hlast' : (entriesOf opened before).getLast? = some final := by
        rw [← List.nil_append before, entriesOf_append, hentries, ← List.append_assoc,
          List.getLast?_concat]
      obtain rfl := Option.some.inj (hlast'.symm.trans hlast)
      exact Or.inl hend
  · intro frame hframe hprecedes
    rcases List.mem_cons.mp hframe with rfl | hframe
    · cases hprecedes
    · exact ⟨frame, hframe, hprecedes, rfl⟩

/-- By induction on the nodes that have begun, up to the one in which the node lies. -/
theorem inserts_insertFrame {mark fresh : Nat} {opened opened' : List Frame}
    {elements elements' : List Sketch}
    (h : insertFrame mark fresh opened elements = some (opened', elements')) :
    Inserts mark fresh opened elements opened' elements' := by
  -- on the nodes that have begun, from the inside out
  induction opened generalizing elements opened' elements' with
  | nil =>
    rw [insertFrame] at h
    split at h
    · next hany => exact inserts_here hany h
    · cases h
  | cons frame outer ih =>
    rw [insertFrame] at h
    split at h
    · next hany => exact inserts_here hany h
    · obtain ⟨⟨outer', before⟩, hinsert, heq⟩ := Option.map_eq_some_iff.mp h
      obtain ⟨rfl, rfl⟩ := Prod.mk.inj heq
      obtain ⟨front, kind, field, back, hentries, hentries', hlast, hframes⟩ := ih hinsert
      refine ⟨front, kind, field, back ++ .opening frame.mark :: entriesAll elements,
        ?_, ?_, ?_, ?_⟩
      · simp [entriesOf, hentries]
      · simp [entriesOf, hentries']
      · intro last hmem
        rcases hlast last hmem with hend | ⟨frame', hframe', hfree, rfl⟩
        · exact Or.inl hend
        · exact Or.inr ⟨frame', List.mem_cons_of_mem _ hframe', hfree, rfl⟩
      · intro frame' hframe' hfree
        rcases List.mem_cons.mp hframe' with rfl | hframe'
        · exact ⟨frame, by simp, hfree, rfl⟩
        · obtain ⟨old, hold, hfree', hmark⟩ := hframes frame' hframe' hfree
          exact ⟨old, List.mem_cons_of_mem _ hold, hfree', hmark⟩

def tokens (draft : Draft) : List Token :=
  draft.entries.filterMap Entry.token?

theorem tokens_of_closed {draft : Draft} (h : draft.opened = []) :
    draft.tokens = Shape.tokensAll (shapeAll draft.elements) := by
  rw [tokens, entries, h, entriesOf, tokens_entriesAll]

@[simp] theorem tokens_empty : empty.tokens = [] := by
  simp [tokens, entries, empty, entriesOf]

theorem tokens_start (draft : Draft) : draft.start.tokens = draft.tokens := by
  simp [tokens, entries_start, Entry.token?]

theorem tokens_push (draft : Draft) (token : Token) (field : Option Field) :
    (draft.push token field).tokens = draft.tokens ++ [token] := by
  simp [tokens, entries_push, Entry.token?]

section Unmoved

variable {draft draft' : Draft} {mark : Nat}

theorem tokens_complete {kind : Kind} (h : draft.complete mark kind = some draft') :
    draft'.tokens = draft.tokens := by
  obtain ⟨frame, opened, hopened, rfl, -, rfl⟩ := complete_eq h
  rw [tokens, entries_completed, tokens, entries_of_opened hopened]
  simp [List.filterMap_cons, Entry.token?]

theorem tokens_abandon (h : draft.abandon mark = some draft') :
    draft'.tokens = draft.tokens := by
  obtain ⟨frame, opened, hopened, rfl, rfl⟩ := abandon_eq h
  rw [tokens, entries_abandoned, tokens, entries_of_opened hopened]
  simp [List.filterMap_cons, Entry.token?]

theorem tokens_fill {slot : Field} (h : draft.fill mark slot = some draft') :
    draft'.tokens = draft.tokens := by
  obtain ⟨-, rfl⟩ := fill_eq h
  rw [tokens, entries, entriesOf_fill, List.filterMap_map, tokens, entries]
  exact congrArg (List.filterMap · _) (funext (Entry.token?_fill mark slot))

theorem tokens_precede (h : draft.precede mark = some draft') :
    draft'.tokens = draft.tokens := by
  obtain ⟨opened, elements, hinsert, rfl⟩ := precede_eq h
  obtain ⟨front, kind, field, back, hentries, hentries', -⟩ := inserts_insertFrame hinsert
  rw [tokens, entries, hentries', tokens, entries, hentries]
  simp [List.filterMap_cons, Entry.token?]

end Unmoved

end Draft

end ScriptTree

import ScriptTree.Parser.Event
import ScriptTree.Proofs.Tree.Shape

/-!
How events grow. Whatever is done to the events of a parse, they stay the record of a growth:
tokens, blanks, completed nodes, and nodes that were opened in front of the node before them. A
growth knows both its events, with the pointers between starts, and the shapes that it stands for.
The steps of the events are the steps of the shapes.
-/

namespace ScriptTree

namespace Events

theorem startsAt_iff {events : Events} {position : Nat} : events.startsAt position = true ↔
    ∃ kind forward field, events[position]? = some (.start kind forward field) := by
  unfold startsAt
  split
  · next kind forward field h => simp [h]
  · next h => simpa using fun kind forward field => h kind forward field

theorem isBlankAt_iff {events : Events} {position : Nat} : events.isBlankAt position = true ↔
    ∃ field, events[position]? = some (.start .tombstone none field) := by
  unfold isBlankAt
  split
  · next field h => simp [h]
  · next h => simpa using fun field => h field

theorem startsAt_of_isBlankAt {events : Events} {position : Nat}
    (h : events.isBlankAt position = true) : events.startsAt position = true := by
  obtain ⟨field, hevent⟩ := isBlankAt_iff.mp h
  exact startsAt_iff.mpr ⟨_, _, _, hevent⟩

end Events

/-- A record of events, the latest ones outermost. `wrap` is a node that was opened in front of the
node with which the growth before it ends. -/
inductive Growth where
  | nil
  | token (before : Growth) (token : Token) (field : Option Field)
  | blank (before : Growth)
  | node (before : Growth) (kind : Kind) (field : Option Field) (body : Growth)
  | wrap (before : Growth) (kind : Kind) (field : Option Field) (body : Growth)
  deriving Repr, Inhabited

namespace Growth

def size : Growth → Nat
  | nil => 0
  | token before _ _ => before.size + 1
  | blank before => before.size + 1
  | node before _ _ body => before.size + (body.size + 2)
  | wrap before _ _ body => before.size + (body.size + 2)

def isNode : Growth → Bool
  | node _ _ _ _ => true
  | wrap _ _ _ _ => true
  | _ => false

def lastSize : Growth → Nat
  | node _ _ _ body => body.size + 2
  | wrap _ _ _ body => body.size + 2
  | _ => 0

def events : Growth → Option Nat → List Event
  | nil, _ => []
  | token before held field, _ => before.events none ++ [.token held field]
  | blank before, _ => before.events none ++ [.blank]
  | node before kind field body, forward =>
    before.events none ++ .start kind forward field :: (body.events none ++ [.finish])
  | wrap before kind field body, forward =>
    before.events (some before.lastSize) ++
      .start kind forward field :: (body.events none ++ [.finish])

/-- The shapes that a growth stands for. -/
def shapes : Growth → List Shape
  | nil => []
  | token before held field => before.shapes ++ [.leaf held field]
  | blank before => before.shapes
  | node before kind field body => before.shapes ++ [.node kind field body.shapes]
  | wrap before kind field body =>
    before.shapes.dropLast ++ [.node kind field (before.shapes.getLast?.toList ++ body.shapes)]

def IsSound : Growth → Prop
  | nil => True
  | token before _ _ => before.IsSound
  | blank before => before.IsSound
  | node before kind _ body => before.IsSound ∧ kind ≠ .tombstone ∧ body.IsSound
  | wrap before kind _ body =>
    before.IsSound ∧ before.isNode = true ∧ kind ≠ .tombstone ∧ body.IsSound

def append (first : Growth) : Growth → Growth
  | nil => first
  | token before held field => token (first.append before) held field
  | blank before => blank (first.append before)
  | node before kind field body => node (first.append before) kind field body
  | wrap before kind field body => wrap (first.append before) kind field body

def fillLast (field : Field) : Growth → Growth
  | node before kind _ body => node before kind (some field) body
  | wrap before kind _ body => wrap before kind (some field) body
  | other => other

attribute [local simp] size events shapes append

theorem length_events (growth : Growth) (forward : Option Nat) :
    (growth.events forward).length = growth.size := by
  induction growth generalizing forward with
  | nil => rfl
  | token before _ _ ih => simp [ih]
  | blank before ih => simp [ih]
  | node before kind field body ihb ihc => simp [ihb, ihc]
  | wrap before kind field body ihb ihc => simp [ihb, ihc]

theorem lastSize_pos {growth : Growth} (h : growth.isNode = true) : 2 ≤ growth.lastSize := by
  cases growth <;> simp [isNode, lastSize] at h ⊢

/-- A node's own start, with what stands before and behind it. -/
theorem events_of_isNode {growth : Growth} (h : growth.isNode = true) :
    ∃ front kind field back, (∀ forward, growth.events forward =
        front ++ .start kind forward field :: back) ∧
      front.length + growth.lastSize = growth.size ∧
      (∀ slot forward, (growth.fillLast slot).events forward =
        front ++ .start kind forward (some slot) :: back) := by
  cases growth with
  | nil => simp [isNode] at h
  | token _ _ _ => simp [isNode] at h
  | blank _ => simp [isNode] at h
  | node before kind field body =>
    exact ⟨before.events none, kind, field, body.events none ++ [.finish], fun _ => rfl,
      by simp [length_events, lastSize], fun _ _ => rfl⟩
  | wrap before kind field body =>
    exact ⟨before.events (some before.lastSize), kind, field, body.events none ++ [.finish],
      fun _ => rfl, by simp [length_events, lastSize], fun _ _ => rfl⟩

theorem shapes_ne_nil {growth : Growth} (h : growth.isNode = true) : growth.shapes ≠ [] := by
  cases growth <;> simp [isNode] at h ⊢

@[simp] theorem isNode_append (first second : Growth) :
    (first.append second).isNode = (second.isNode || (second.size == 0 && first.isNode)) := by
  cases second <;> simp [isNode]

theorem isNode_append_of_isNode (first : Growth) {second : Growth} (h : second.isNode = true) :
    (first.append second).isNode = true := by
  simp [h]

theorem size_append (first second : Growth) :
    (first.append second).size = first.size + second.size := by
  induction second with
  | nil => rfl
  | token before _ _ ih => simp only [append, size, ih]; omega
  | blank before ih => simp only [append, size, ih]; omega
  | node before kind field body ih _ => simp only [append, size, ih]; omega
  | wrap before kind field body ih _ => simp only [append, size, ih]; omega

theorem lastSize_append (first : Growth) {second : Growth} (h : second.isNode = true) :
    (first.append second).lastSize = second.lastSize := by
  cases second <;> simp [isNode, lastSize] at h ⊢

theorem isSound_append {first second : Growth} (h : first.IsSound) (h' : second.IsSound) :
    (first.append second).IsSound := by
  induction second with
  | nil => exact h
  | token before _ _ ih => exact ih h'
  | blank before ih => exact ih h'
  | node before kind field body ih _ => exact ⟨ih h'.1, h'.2⟩
  | wrap before kind field body ih _ =>
    exact ⟨ih h'.1, isNode_append_of_isNode first h'.2.1, h'.2.2⟩

/-- The events of two growths stand one behind the other, and only the last node points forward. -/
theorem events_append {first second : Growth} (h : second.IsSound) (forward : Option Nat)
    (hf : forward = none ∨ second.isNode = true) :
    (first.append second).events forward = first.events none ++ second.events forward := by
  induction second generalizing forward with
  | nil =>
    rcases hf with rfl | hf
    · simp
    · simp [isNode] at hf
  | token before _ _ ih => simp [ih h none (Or.inl rfl)]
  | blank before ih => simp [ih h none (Or.inl rfl)]
  | node before kind field body ih _ => simp [ih h.1 none (Or.inl rfl)]
  | wrap before kind field body ih _ =>
    simp [lastSize_append first h.2.1, ih h.1 _ (Or.inr h.2.1)]

theorem shapes_append {first second : Growth} (h : second.IsSound) :
    (first.append second).shapes = first.shapes ++ second.shapes := by
  induction second with
  | nil => simp
  | token before _ _ ih => simp [ih h]
  | blank before ih => simp [ih h]
  | node before kind field body ih _ => simp [ih h.1]
  | wrap before kind field body ih _ =>
    have hne := shapes_ne_nil h.2.1
    simp only [append, shapes, ih h.1, List.dropLast_append_of_ne_nil hne, List.append_assoc]
    rw [List.getLast?_append, List.getLast?_eq_some_getLast hne, Option.some_or]

theorem isSound_fillLast {growth : Growth} (slot : Field) (h : growth.IsSound) :
    (growth.fillLast slot).IsSound := by
  cases growth <;> exact h

@[simp] theorem size_fillLast (growth : Growth) (slot : Field) :
    (growth.fillLast slot).size = growth.size := by
  cases growth <;> rfl

@[simp] theorem lastSize_fillLast (growth : Growth) (slot : Field) :
    (growth.fillLast slot).lastSize = growth.lastSize := by
  cases growth <;> rfl

@[simp] theorem isNode_fillLast (growth : Growth) (slot : Field) :
    (growth.fillLast slot).isNode = growth.isNode := by
  cases growth <;> rfl

theorem shapes_fillLast {growth : Growth} (slot : Field) (h : growth.isNode = true) :
    (growth.fillLast slot).shapes = Shape.fillLast slot growth.shapes := by
  cases growth with
  | node before kind field body => simp [fillLast, Shape.withField]
  | wrap before kind field body => simp [fillLast, Shape.withField]
  | _ => simp [isNode] at h

end Growth

end ScriptTree

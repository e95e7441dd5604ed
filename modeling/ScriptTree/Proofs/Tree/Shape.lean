import ScriptTree.Token
import ScriptTree.Tree.Builder

/-!
Shapes: trees as nested data, before they are laid into tables. The steps that build a shape are its
brackets from left to right.
-/

namespace ScriptTree

/-- A token in a slot, or a node in a slot with its children in order. -/
inductive Shape where
  | leaf (token : Token) (field : Option Field)
  | node (kind : Kind) (field : Option Field) (children : List Shape)
  deriving Repr, Inhabited

namespace Shape

mutual

def steps : Shape → List BuildStep
  | .leaf token field => [.token token.leading token.kind token.span.size token.trailing field]
  | .node kind field children => .start kind field :: (stepsAll children ++ [.finish])

def stepsAll : List Shape → List BuildStep
  | [] => []
  | shape :: rest => shape.steps ++ stepsAll rest

end

mutual

def tokens : Shape → List Token
  | .leaf token _ => [token]
  | .node _ _ children => tokensAll children

def tokensAll : List Shape → List Token
  | [] => []
  | shape :: rest => shape.tokens ++ tokensAll rest

end

mutual

def count (wanted : Kind) : Shape → Nat
  | .leaf _ _ => 0
  | .node kind _ children => (if kind = wanted then 1 else 0) + countAll wanted children

def countAll (wanted : Kind) : List Shape → Nat
  | [] => 0
  | shape :: rest => shape.count wanted + countAll wanted rest

end

mutual

def All (holds : Kind → List Shape → Prop) : Shape → Prop
  | .leaf _ _ => True
  | .node kind _ children => holds kind children ∧ AllOf holds children

def AllOf (holds : Kind → List Shape → Prop) : List Shape → Prop
  | [] => True
  | shape :: rest => shape.All holds ∧ AllOf holds rest

end

/-- The shape with its slot set. The slot of a token is fixed when it is taken. -/
def withField (field : Field) : Shape → Shape
  | .leaf token old => .leaf token old
  | .node kind _ children => .node kind (some field) children

def fillLast (field : Field) : List Shape → List Shape
  | [] => []
  | [last] => [last.withField field]
  | shape :: rest => shape :: fillLast field rest

attribute [local simp] steps stepsAll tokens tokensAll count countAll All AllOf fillLast

@[simp] theorem stepsAll_nil : stepsAll [] = [] := by
  rw [stepsAll]

@[simp] theorem stepsAll_append (xs ys : List Shape) :
    stepsAll (xs ++ ys) = stepsAll xs ++ stepsAll ys := by
  induction xs with
  | nil => simp
  | cons shape rest ih => simp [ih]

theorem stepsAll_singleton (shape : Shape) : stepsAll [shape] = shape.steps := by
  simp

@[simp] theorem tokensAll_nil : tokensAll [] = [] := by
  rw [tokensAll]

@[simp] theorem tokensAll_append (xs ys : List Shape) :
    tokensAll (xs ++ ys) = tokensAll xs ++ tokensAll ys := by
  induction xs with
  | nil => simp
  | cons shape rest ih => simp [ih]

@[simp] theorem tokensAll_singleton (shape : Shape) : tokensAll [shape] = shape.tokens := by
  simp

@[simp] theorem countAll_nil (wanted : Kind) : countAll wanted [] = 0 := by
  rw [countAll]

@[simp] theorem countAll_append (wanted : Kind) (xs ys : List Shape) :
    countAll wanted (xs ++ ys) = countAll wanted xs + countAll wanted ys := by
  induction xs with
  | nil => simp
  | cons shape rest ih => simp [ih, Nat.add_assoc]

@[simp] theorem countAll_singleton (wanted : Kind) (shape : Shape) :
    countAll wanted [shape] = shape.count wanted := by
  simp

theorem allOf_iff {holds : Kind → List Shape → Prop} {shapes : List Shape} :
    AllOf holds shapes ↔ ∀ shape ∈ shapes, shape.All holds := by
  induction shapes with
  | nil => simp
  | cons shape rest ih => simp [ih]

@[simp] theorem tokens_withField (field : Field) (shape : Shape) :
    (shape.withField field).tokens = shape.tokens := by
  cases shape <;> simp [withField]

@[simp] theorem count_withField (wanted : Kind) (field : Field) (shape : Shape) :
    (shape.withField field).count wanted = shape.count wanted := by
  cases shape <;> simp [withField]

@[simp] theorem all_withField {holds : Kind → List Shape → Prop} (field : Field) (shape : Shape) :
    (shape.withField field).All holds ↔ shape.All holds := by
  cases shape <;> simp [withField]

@[simp] theorem allOf_fillLast {holds : Kind → List Shape → Prop} (field : Field)
    (shapes : List Shape) : AllOf holds (fillLast field shapes) ↔ AllOf holds shapes := by
  induction shapes with
  | nil => rfl
  | cons shape rest ih => cases rest <;> simp_all

@[simp] theorem fillLast_append_singleton (field : Field) (shapes : List Shape) (last : Shape) :
    fillLast field (shapes ++ [last]) = shapes ++ [last.withField field] := by
  induction shapes with
  | nil => rfl
  | cons shape rest ih =>
    cases hr : rest ++ [last] with
    | nil => simp at hr
    | cons next more =>
      rw [List.cons_append, hr, fillLast, ← hr, ih, List.cons_append]
      simp

end Shape

end ScriptTree

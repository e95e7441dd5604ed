import ScriptTree.Proofs.Parser.Recording

/-!
Stray characters are those that make no token. Shapes are tidy if they hold stray characters only as
direct children of error nodes.
-/

namespace ScriptTree

namespace Shape

def isStray : Shape → Bool
  | .leaf token _ => token.kind == .unknown
  | .node _ _ _ => false

/-- No stray character stands here, unless in an error node. -/
def Encloses (kind : Kind) (children : List Shape) : Prop :=
  kind = .error ∨ ∀ child ∈ children, child.isStray = false

def Tidy (shapes : List Shape) : Prop :=
  (∀ shape ∈ shapes, shape.isStray = false) ∧ AllOf Encloses shapes

theorem tidy_nil : Tidy [] :=
  ⟨by simp, trivial⟩

theorem tidy_leaf {token : Token} (field : Option Field) (h : token.kind ≠ .unknown) :
    Tidy [.leaf token field] :=
  ⟨by simpa [isStray] using h, trivial, trivial⟩

theorem tidy_append {xs ys : List Shape} : Tidy (xs ++ ys) ↔ Tidy xs ∧ Tidy ys := by
  simp only [Tidy, allOf_iff, List.mem_append, or_imp, forall_and]
  tauto

theorem tidy_node {kind : Kind} {field : Option Field} {children : List Shape}
    (h : Tidy children) : Tidy [.node kind field children] :=
  ⟨by simp [isStray], ⟨Or.inr h.1, h.2⟩, trivial⟩

theorem tidy_error {children : List Shape} (h : AllOf Encloses children) :
    Tidy [.node .error none children] :=
  ⟨by simp [isStray], ⟨Or.inl rfl, h⟩, trivial⟩

theorem allOf_leaves (holds : Kind → List Shape → Prop) (tokens : List Token)
    (clear : Token → Token) : AllOf holds (tokens.map fun token => .leaf (clear token) none) := by
  rw [allOf_iff]
  intro shape hs
  obtain ⟨token, _, rfl⟩ := List.mem_map.mp hs
  trivial

@[simp] theorem isStray_withField (field : Field) (shape : Shape) :
    (shape.withField field).isStray = shape.isStray := by
  cases shape <;> rfl

theorem tidy_fillLast {field : Field} {shapes : List Shape} (h : Tidy shapes) :
    Tidy (fillLast field shapes) := by
  rcases List.eq_nil_or_concat shapes with rfl | ⟨front, last, rfl⟩
  · exact h
  · rw [List.concat_eq_append] at h ⊢
    rw [fillLast_append_singleton]
    rw [tidy_append] at h ⊢
    refine ⟨h.1, ?_, ?_⟩
    · simpa using h.2.1
    · simpa [AllOf] using h.2.2

theorem tidy_wrap {kind : Kind} {shapes body : List Shape} (h : Tidy shapes) (hb : Tidy body) :
    Tidy (shapes.dropLast ++ [.node kind none (shapes.getLast?.toList ++ body)]) := by
  rcases List.eq_nil_or_concat shapes with rfl | ⟨front, last, rfl⟩
  · simpa using tidy_node hb
  · rw [List.concat_eq_append, tidy_append] at h
    simpa [tidy_append] using ⟨h.1, tidy_node (tidy_append.mpr ⟨h.2, hb⟩)⟩

end Shape

namespace Reading

open ParseState

theorem tidy_taken {state : ParseState} (field : Option Field) (h : state.kind ≠ .unknown) :
    Shape.Tidy (taken state field).shapes := by
  unfold taken
  split
  · exact Shape.tidy_nil
  · exact Shape.tidy_leaf field h

theorem tidy_fill {reading : Reading} (field : Field) (h : Shape.Tidy reading.shapes) :
    Shape.Tidy (reading.fill field).shapes := by
  unfold fill
  split
  · exact Shape.tidy_fillLast h
  · exact h

theorem tidy_skipped (state : ParseState) (dropped : Reading) :
    Shape.Tidy (skipped state dropped).shapes := by
  obtain ⟨tokens, last, hs, _⟩ := skips_skipElement state.lexer 0 true state.rounds
  rw [skipped_eq state dropped hs]
  exact Shape.tidy_error (Shape.allOf_leaves _ tokens _)

end Reading

end ScriptTree

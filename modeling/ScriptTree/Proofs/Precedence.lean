import Mathlib.Tactic.ByContra
import ScriptTree.Grammar.Expressions
import ScriptTree.Proofs.Kind.Set

/-!
The order of the levels of binding: which operations may stand beside an operator without
parentheses, and how the levels are told from the operators.
-/

namespace ScriptTree

namespace Precedence

def HoldsLeft (p q : Precedence) : Prop :=
  (p.associativity = .left → p.level ≤ q.level) ∧ (p.associativity = .right → p.level < q.level)

def HoldsRight (p q : Precedence) : Prop :=
  (p.associativity = .left → p.level < q.level) ∧ (p.associativity = .right → p.level ≤ q.level)

instance (p q : Precedence) : Decidable (p.HoldsLeft q) :=
  inferInstanceAs (Decidable (_ ∧ _))

instance (p q : Precedence) : Decidable (p.HoldsRight q) :=
  inferInstanceAs (Decidable (_ ∧ _))

theorem mem_all (p : Precedence) : p ∈ all := by
  cases p <;> decide

theorem mem_binaryFrom {least p : Precedence} :
    p ∈ least.binaryFrom ↔ least.level ≤ p.level ∧ p.level ≤ power.level := by
  simp [binaryFrom, mem_all]

/-- An operator that is too loose for the right operand of another one may follow that one. -/
theorem holdsLeft_of_lt {p q : Precedence} (h : p.level < q.rightOperand.level) :
    p.HoldsLeft q := by
  have hall : ∀ p ∈ all, ∀ q ∈ all, p.level < q.rightOperand.level → p.HoldsLeft q := by
    decide
  exact hall p (mem_all p) q (mem_all q) h

theorem holdsRight_of_le {p q : Precedence} (hp : p.level ≤ power.level)
    (h : p.rightOperand.level ≤ q.level) : p.HoldsRight q := by
  have hall : ∀ p ∈ all, ∀ q ∈ all, p.level ≤ power.level → p.rightOperand.level ≤ q.level →
      p.HoldsRight q := by
    decide
  exact hall p (mem_all p) q (mem_all q) hp h

/-- Every binary operator has one level. -/
theorem ofBinary?_of_mem {p : Precedence} (hp : p.level ≤ power.level) {kind : Kind}
    (h : kind ∈ p.operators) : ofBinary? kind = some p := by
  have hall : ∀ p ∈ all, p.level ≤ power.level → ∀ kind ∈ p.operators,
      ofBinary? kind = some p := by
    decide
  exact hall p (mem_all p) hp kind h

end Precedence

namespace Grammar

theorem contains_binaryOperators {least : Precedence} {kind : Kind} :
    (binaryOperators least).contains kind = true ↔
      ∃ p ∈ least.binaryFrom, kind ∈ p.operators := by
  simp [binaryOperators, KindSet.contains_ofList]

/-- A binary operator behind an operand of a level is looser than that level. -/
theorem level_lt_of_not_contains {least p : Precedence} {kind : Kind}
    (h : (binaryOperators least).contains kind = false) (hp : p.level ≤ Precedence.power.level)
    (hmem : kind ∈ p.operators) : p.level < least.level := by
  by_contra hle
  have hfrom := Precedence.mem_binaryFrom.mpr ⟨Nat.le_of_not_lt hle, hp⟩
  have hin := contains_binaryOperators.mpr ⟨p, hfrom, hmem⟩
  rw [h] at hin
  cases hin

end Grammar

end ScriptTree

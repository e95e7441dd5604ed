import ScriptTree.Proofs.Lexer.Case
import ScriptTree.Proofs.Lexer.Ordinary

/-!
Signs in front of numbers. A sign belongs to the number behind it, unless the token before it can
end an operand; then it is an operator, and the number is read without it.
-/

namespace ScriptTree

open Text

def signOperator? : Char → Option Kind
  | '-' => some .minus
  | '+' => some .plus
  | _ => none

theorem signOperator?_eq_some {sign : Char} {kind : Kind} (h : signOperator? sign = some kind) :
    (sign = '-' ∧ kind = .minus) ∨ (sign = '+' ∧ kind = .plus) := by
  unfold signOperator? at h
  split at h
  · exact Or.inl ⟨rfl, (Option.some.inj h).symm⟩
  · exact Or.inr ⟨rfl, (Option.some.inj h).symm⟩
  · cases h

namespace Number

variable {chars : List Char}

theorem startsUnsigned_of_isDigit {c : Char} (h : isDigit c = true) (rest : List Char) :
    startsUnsigned (c :: rest) = true := by
  rw [startsUnsigned_cons, if_neg, h]
  rintro ⟨rfl, -⟩
  exact absurd h (by decide)

/-- A number without a sign starts with a digit or a point. -/
theorem exists_of_startsUnsigned (h : startsUnsigned chars = true) :
    ∃ c rest, chars = c :: rest ∧ (isDigit c = true ∨ c = '.') := by
  cases chars with
  | nil => cases h
  | cons c rest =>
    rw [startsUnsigned_cons] at h
    refine ⟨c, rest, rfl, ?_⟩
    split at h
    · next hpoint => exact Or.inr hpoint.1
    · exact Or.inl h

end Number

namespace Scan

/-- No mode knows a token of its own that starts with a sign. -/
theorem special?_sign {sign : Char} {kind : Kind} (h : signOperator? sign = some kind)
    (mode : LexMode) (rest : List Char) : special? mode (sign :: rest) = none := by
  have hsign : isSpriteChar sign = false ∧ isFrameChar sign = false ∧ sign ≠ '#' ∧ sign ≠ '"' ∧
      sign ≠ '>' := by
    rcases signOperator?_eq_some h with ⟨rfl, -⟩ | ⟨rfl, -⟩ <;> decide
  obtain ⟨hsprite, hframe, hmark, hquote, hangle⟩ := hsign
  cases mode with
  | plain => rfl
  | sprite =>
    have hbare : bareSprite? (sign :: rest) = none := by
      unfold bareSprite?
      split
      · next a b c d more heq =>
        obtain ⟨rfl, -⟩ := List.cons.inj heq
        simp [hsprite, hmark]
      · rfl
    simp [special?, sprite?, hquote, hbare]
  | frames => simp [special?, frames?, bareFrames?, hquote, hframe]
  | angle => simp [special?, hangle]

/-- A number without a sign is read whatever stands in front of it. -/
theorem plain_unsigned {chars : List Char} (h : Number.startsUnsigned chars = true)
    (preceding : Kind) :
    plain preceding chars = sound (Number.unsigned chars).2 (Number.unsigned chars).1 := by
  obtain ⟨c, rest, rfl, hc⟩ := Number.exists_of_startsUnsigned h
  have hsign : (c == '-' || c == '+') = false := by
    rw [Bool.or_eq_false_iff, beq_eq_false_iff_ne, beq_eq_false_iff_ne]
    constructor
    all_goals
      rintro rfl
      exact absurd hc (by decide)
  have hstarts : Number.starts preceding (c :: rest) = true := by
    rw [Number.starts, hsign]
    exact h
  have hmeasure : Number.measure (c :: rest) = Number.unsigned (c :: rest) := by
    rw [Number.measure, hsign]
    rfl
  rw [plain, if_pos hstarts, hmeasure]

/-- A sign in front of a number belongs to it, or it is an operator, by what stands in front. -/
theorem plain_sign {sign : Char} {kind : Kind} (h : signOperator? sign = some kind)
    {chars : List Char} (hstarts : Number.startsUnsigned chars = true) (preceding : Kind) :
    plain preceding (sign :: chars) =
      if preceding.endsOperand then sound kind 1
      else sound (Number.unsigned chars).2 (1 + (Number.unsigned chars).1) := by
  have hsigned : Number.starts preceding (sign :: chars) = !preceding.endsOperand ∧
      Number.measure (sign :: chars) =
        (1 + (Number.unsigned chars).1, (Number.unsigned chars).2) := by
    rcases signOperator?_eq_some h with ⟨rfl, -⟩ | ⟨rfl, -⟩ <;>
      simp [Number.starts, Number.measure, hstarts]
  obtain ⟨hnumber, hmeasure⟩ := hsigned
  cases hends : preceding.endsOperand with
  | false =>
    rw [hends, Bool.not_false] at hnumber
    rw [plain, if_pos hnumber, hmeasure]
    rfl
  | true =>
    rw [hends] at hnumber
    obtain ⟨c, rest, rfl, hc⟩ := Number.exists_of_startsUnsigned hstarts
    have hother : c ≠ '-' ∧ c ≠ '+' ∧ c ≠ '=' := by
      refine ⟨?_, ?_, ?_⟩
      all_goals
        rintro rfl
        exact absurd hc (by decide)
    have hsymbol : symbol (sign :: c :: rest) = sound kind 1 := by
      rcases signOperator?_eq_some h with ⟨rfl, rfl⟩ | ⟨rfl, rfl⟩ <;>
        simp [symbol, operatorAt, compound, assignOr, eats, hother]
    have hsign : isNameStart sign = false ∧ sign ≠ '"' ∧ sign ≠ '\'' ∧ sign ≠ '#' := by
      rcases signOperator?_eq_some h with ⟨rfl, -⟩ | ⟨rfl, -⟩ <;> decide
    obtain ⟨hname, hdouble, hsingle, hmark⟩ := hsign
    simp [plain, hnumber, hname, hdouble, hsingle, atInclude, hmark, hsymbol]

/-- Behind an operand a sign is an operator, even in front of a digit. -/
theorem scan_sign {sign : Char} {kind : Kind} (h : signOperator? sign = some kind)
    {preceding : Kind} (hends : preceding.endsOperand = true) {digit : Char}
    (hdigit : isDigit digit = true) (mode : LexMode) (rest : List Char) :
    scan mode preceding (sign :: digit :: rest) = sound kind 1 := by
  rw [scan, special?_sign h, Option.getD_none,
    plain_sign h (Number.startsUnsigned_of_isDigit hdigit rest), if_pos hends]

/-- Only a sign in front of a number is read by what stands in front of it. -/
theorem plain_congr_or_sign (preceding preceding' : Kind) (chars : List Char) :
    plain preceding chars = plain preceding' chars ∨
      ∃ sign kind rest, chars = sign :: rest ∧ signOperator? sign = some kind ∧
        Number.startsUnsigned rest = true := by
  cases chars with
  | nil => exact Or.inl rfl
  | cons c rest =>
    by_cases hsigned : (c == '-' || c == '+') = true ∧ Number.startsUnsigned rest = true
    · obtain ⟨hsign, hstarts⟩ := hsigned
      rw [Bool.or_eq_true, beq_iff_eq, beq_iff_eq] at hsign
      rcases hsign with rfl | rfl
      · exact Or.inr ⟨'-', .minus, rest, rfl, rfl, hstarts⟩
      · exact Or.inr ⟨'+', .plus, rest, rfl, rfl, hstarts⟩
    · have hstarts : Number.starts preceding (c :: rest) =
          Number.starts preceding' (c :: rest) := by
        unfold Number.starts
        dsimp only
        split
        · next hsign =>
          rw [Bool.eq_false_iff.mpr fun h => hsigned ⟨hsign, h⟩, Bool.false_and, Bool.false_and]
        · rfl
      rw [plain, plain, hstarts]
      exact Or.inl rfl

end Scan

end ScriptTree

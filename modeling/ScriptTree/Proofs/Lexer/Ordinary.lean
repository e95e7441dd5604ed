import ScriptTree.Proofs.Lexer.Scan

/-!
Ordinary tokens, form by form: the end of the text, numbers, words, quoted literals, the include
directive and symbols. What holds of all ordinary tokens is proved once for each form. The modes of
reading add sprites, frames and the lone `>`.
-/

namespace ScriptTree

open Text

namespace Number

theorem withSuffix_kind (chars : List Char) (size : Nat) (isFloat : Bool) :
    (withSuffix chars size isFloat).2 = .floatNumber ∨
      (withSuffix chars size isFloat).2 = .intNumber := by
  simp only [withSuffix]
  split
  · exact Or.inl rfl
  · exact Or.inr rfl

theorem unsigned_kind (chars : List Char) :
    (unsigned chars).2 = .floatNumber ∨ (unsigned chars).2 = .intNumber := by
  unfold unsigned
  split <;> exact withSuffix_kind _ _ _

theorem measure_kind (chars : List Char) :
    (measure chars).2 = .floatNumber ∨ (measure chars).2 = .intNumber := by
  cases chars with
  | nil => exact Or.inr rfl
  | cons c rest =>
    simp only [measure]
    split
    · exact unsigned_kind rest
    · exact unsigned_kind (c :: rest)

end Number

namespace Scan

inductive Ordinary (preceding : Kind) : List Char → Scan → Prop where
  | ended : Ordinary preceding [] (sound .eof 0)
  | number {chars : List Char} (starts : Number.starts preceding chars = true) :
      Ordinary preceding chars (sound (Number.measure chars).2 (Number.measure chars).1)
  | word {c : Char} {rest : List Char} (start : isNameStart c = true) :
      Ordinary preceding (c :: rest) (word (c :: rest))
  | string (rest : List Char) :
      Ordinary preceding ('"' :: rest) (quoted ('"' :: rest) '"' .string .unterminatedString)
  | name (rest : List Char) :
      Ordinary preceding ('\'' :: rest) (quoted ('\'' :: rest) '\'' .nameLiteral .unterminatedName)
  | directive {chars : List Char} (directs : atInclude chars = true) :
      Ordinary preceding chars (sound .includeKw 8)
  | symbol {chars : List Char} (noNumber : Number.starts preceding chars = false) :
      Ordinary preceding chars (symbol chars)

/-- Ordinary tokens have the forms listed above, and no others. -/
theorem ordinary_plain (preceding : Kind) (chars : List Char) :
    Ordinary preceding chars (plain preceding chars) := by
  cases chars with
  | nil => exact .ended
  | cons c rest =>
    unfold plain
    dsimp only
    split
    · next hnumber => exact .number hnumber
    next hnumber =>
    split
    · next hword => exact .word hword
    split
    · next hquote =>
      obtain rfl := beq_iff_eq.mp hquote
      exact .string rest
    split
    · next hquote =>
      obtain rfl := beq_iff_eq.mp hquote
      exact .name rest
    split
    · next hinclude => exact .directive hinclude
    · exact .symbol (Bool.eq_false_iff.mpr hnumber)

def ordinaryKinds : List Kind :=
  [.eof, .intNumber, .floatNumber, .name, .string, .nameLiteral, .includeKw, .unknown] ++
    keywords.map Prod.snd ++ operators.map Prod.snd

theorem symbol_kind (chars : List Char) :
    (symbol chars).kind = .unknown ∨ (symbol chars).kind ∈ operators.map Prod.snd := by
  rw [symbol_eq]
  split
  · next spelling kind hoperator => exact Or.inr (List.mem_map_of_mem (operator?_mem hoperator))
  · exact Or.inl rfl

theorem word_kind (chars : List Char) :
    (word chars).kind = .name ∨ (word chars).kind ∈ keywords.map Prod.snd := by
  simp only [word, sound]
  cases hk : keyword? (String.ofList (chars.takeWhile isNamePart)) with
  | none => exact Or.inl rfl
  | some kind => exact Or.inr (List.mem_map_of_mem (keyword?_mem hk))

variable {preceding : Kind} {chars : List Char} {found : Scan}

/-- Sprites and frames are not among the kinds of ordinary tokens. -/
theorem Ordinary.kind_mem (h : Ordinary preceding chars found) : found.kind ∈ ordinaryKinds := by
  cases h with
  | ended => decide
  | number starts =>
    change (Number.measure chars).2 ∈ ordinaryKinds
    rcases Number.measure_kind chars with h | h
    · rw [h]
      decide
    · rw [h]
      decide
  | @word c rest start =>
    rcases word_kind (c :: rest) with h | h
    · rw [h]
      decide
    · exact List.mem_append_left _ (List.mem_append_right _ h)
  | string rest => exact (by decide : Kind.string ∈ ordinaryKinds)
  | name rest => exact (by decide : Kind.nameLiteral ∈ ordinaryKinds)
  | directive directs => decide
  | symbol noNumber =>
    rcases symbol_kind chars with h | h
    · rw [h]
      decide
    · exact List.mem_append_right _ h

end Scan

/-- The special token of a mode is a sprite, frames or a lone `>`, and nothing is wrong with it. -/
theorem Scan.special?_eq {mode : LexMode} {chars : List Char} {found : Scan}
    (h : special? mode chars = some found) :
    (∃ size, sprite? chars = some size ∧ found = sound .sprite size) ∨
    (∃ size, frames? chars = some size ∧ found = sound .frames size) ∨
    (chars.head? = some '>' ∧ found = sound .gt 1) := by
  cases mode with
  | plain => cases h
  | sprite =>
    obtain ⟨size, hsize, rfl⟩ := Option.map_eq_some_iff.mp h
    exact Or.inl ⟨size, hsize, rfl⟩
  | frames =>
    obtain ⟨size, hsize, rfl⟩ := Option.map_eq_some_iff.mp h
    exact Or.inr (Or.inl ⟨size, hsize, rfl⟩)
  | angle =>
    simp only [special?] at h
    split at h
    · next hhead => exact Or.inr (Or.inr ⟨beq_iff_eq.mp hhead, (Option.some.inj h).symm⟩)
    · cases h

/-- What is read in a mode is the special token of the mode or an ordinary one. -/
theorem scan_cases (mode : LexMode) (preceding : Kind) (chars : List Char) :
    Scan.special? mode chars = some (scan mode preceding chars) ∨
      Scan.Ordinary preceding chars (scan mode preceding chars) := by
  unfold scan
  cases hspecial : Scan.special? mode chars with
  | some found => exact Or.inl rfl
  | none => exact Or.inr (Scan.ordinary_plain preceding chars)

end ScriptTree

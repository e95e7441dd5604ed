import Mathlib.Tactic.ByContra
import ScriptTree.Proofs.Lexer.Operator

/-!
One token at a time: the end of the text is read exactly where no character is left, and every other
token has at least one character.
-/

namespace ScriptTree

open Text

theorem keyword?_mem {word : String} {kind : Kind} (h : keyword? word = some kind) :
    (lower word, kind) ∈ keywords := by
  obtain ⟨front, back, hentries, -⟩ := List.lookup_eq_some_iff.mp h
  rw [hentries]
  exact List.mem_append_right _ List.mem_cons_self

theorem keyword?_getD_ne_eof (word : String) : (keyword? word).getD .name ≠ .eof := by
  have hall : ∀ entry ∈ keywords, entry.2 ≠ .eof := by decide
  cases h : keyword? word with
  | none => nofun
  | some kind => exact hall _ (keyword?_mem h)

namespace Number

theorem le_withSuffix (chars : List Char) (size : Nat) (isFloat : Bool) :
    size ≤ (withSuffix chars size isFloat).1 := by
  simp only [withSuffix]
  omega

theorem withSuffix_kind_ne_eof (chars : List Char) (size : Nat) (isFloat : Bool) :
    (withSuffix chars size isFloat).2 ≠ .eof := by
  simp only [withSuffix]
  split <;> simp

theorem marked?_pos {chars : List Char} {size : Nat} (h : marked? chars = some size) :
    0 < size := by
  unfold marked? at h
  split at h
  · simp only [Option.ite_none_right_eq_some, Option.some.injEq] at h
    omega
  · simp at h

theorem digitRun_pos {radix : Nat} {afterDigit : Bool} {c : Char} {rest : List Char}
    (h : isDigitOf radix c = true) : 0 < digitRun radix afterDigit (c :: rest) := by
  rw [digitRun, if_pos h]
  omega

theorem isDigitOf_ten {c : Char} (h : isDigit c = true) : isDigitOf 10 c = true := by
  have hd := h
  simp only [isDigit, Bool.and_eq_true, decide_eq_true_eq] at hd
  have hlow : '0'.toNat ≤ c.toNat := hd.1
  have hhigh : c.toNat ≤ '9'.toNat := hd.2
  have hzero : '0'.toNat = 48 := rfl
  have hnine : '9'.toNat = 57 := rfl
  simp only [isDigitOf, digitValue?, h, ↓reduceIte]
  have hlt : c.toNat - 48 < 10 := by omega
  simpa [Option.filter] using hlt

/-- A point in front of a digit always starts a fraction. -/
theorem startsFraction_of_isDigit {c : Char} (h : isDigit c = true) :
    startsFraction (some c) = true := by
  have hd := h
  simp only [isDigit, Bool.and_eq_true, decide_eq_true_eq] at hd
  have hlow : '0'.toNat ≤ c.toNat := hd.1
  have hhigh : c.toNat ≤ '9'.toNat := hd.2
  have hzero : '0'.toNat = 48 := rfl
  have hnine : '9'.toNat = 57 := rfl
  have hpoint : c ≠ '.' := by
    rintro rfl
    simp at hlow
  have hname : isNameStart c = false := by
    have ha : ¬ ('a' ≤ c) := fun hle => by
      have : 'a'.toNat ≤ c.toNat := hle
      have hn : 'a'.toNat = 97 := rfl
      omega
    have hA : ¬ ('A' ≤ c) := fun hle => by
      have : 'A'.toNat ≤ c.toNat := hle
      have hn : 'A'.toNat = 65 := rfl
      omega
    have hu : c ≠ '_' := by
      rintro rfl
      simp at hhigh
    simp [isNameStart, isLetter, ha, hA, hu]
  simp [startsFraction, hpoint, hname]

/-- Where an unsigned number starts, it is not empty. -/
theorem unsigned_pos {chars : List Char} (h : startsUnsigned chars = true) :
    0 < (unsigned chars).1 := by
  unfold unsigned
  split
  · rename_i size hm
    exact Nat.lt_of_lt_of_le (marked?_pos hm) (le_withSuffix _ _ _)
  · dsimp only
    refine Nat.lt_of_lt_of_le ?_ (le_withSuffix _ _ _)
    unfold startsUnsigned at h
    split at h
    · rename_i c rest _
      have hz : digitRun 10 false ('.' :: c :: rest) = 0 := by
        simp [digitRun, isDigitOf, digitValue?, isDigit]
      rw [hz]
      simp only [List.drop_zero, fraction, List.head?_cons, startsFraction_of_isDigit h,
        ↓reduceIte]
      omega
    · rename_i c rest _ _
      have hrun : 0 < digitRun 10 false (c :: rest) := digitRun_pos (isDigitOf_ten h)
      omega
    · simp at h

theorem unsigned_kind_ne_eof (chars : List Char) : (unsigned chars).2 ≠ .eof := by
  unfold unsigned
  split <;> exact withSuffix_kind_ne_eof _ _ _

/-- Where a number starts, it is not empty. -/
theorem measure_pos {preceding : Kind} {chars : List Char} (h : starts preceding chars = true) :
    0 < (measure chars).1 := by
  cases chars with
  | nil => simp [starts] at h
  | cons c rest =>
    simp only [starts] at h
    simp only [measure]
    split at h
    · rename_i hs
      rw [if_pos hs]
      dsimp only
      omega
    · rename_i hs
      rw [if_neg hs]
      exact unsigned_pos h

theorem measure_kind_ne_eof (chars : List Char) : (measure chars).2 ≠ .eof := by
  cases chars with
  | nil => simp [measure]
  | cons c rest =>
    simp only [measure]
    split
    · exact unsigned_kind_ne_eof rest
    · exact unsigned_kind_ne_eof (c :: rest)

end Number

namespace Scan

def IsFull (scan : Scan) : Prop :=
  scan.kind ≠ .eof ∧ 0 < scan.size

/-- A name has at least its first character, and is within the text. -/
theorem word_isFull {c : Char} {rest : List Char} (h : isNameStart c = true) :
    (word (c :: rest)).IsFull := by
  have hpart : isNamePart c = true := by
    simp only [isNameStart, Bool.or_eq_true] at h
    simp only [isNamePart, Bool.or_eq_true]
    rcases h with h | h
    · exact Or.inl (Or.inl h)
    · exact Or.inr h
  refine ⟨?_, ?_⟩
  · simp only [word, sound]
    exact keyword?_getD_ne_eof _
  · simp [word, sound, hpart]

theorem symbol_isFull (chars : List Char) : (symbol chars).IsFull := by
  rw [symbol_eq]
  split
  · rename_i spelling kind hop
    have hmem := operator?_mem hop
    have hkind : ∀ entry ∈ operators, entry.2 ≠ .eof := by decide
    exact ⟨hkind _ hmem, operators_pos _ hmem⟩
  · exact ⟨by simp [sound], by simp [sound]⟩

/-- Every ordinary token takes a character at least, be it an unknown one. -/
theorem plain_isFull (preceding : Kind) (c : Char) (rest : List Char) :
    (plain preceding (c :: rest)).IsFull := by
  simp only [plain]
  split
  · rename_i hs
    exact ⟨Number.measure_kind_ne_eof _, Number.measure_pos hs⟩
  · split
    · rename_i hn
      exact word_isFull hn
    · split
      · exact ⟨by simp [quoted], by simp only [quoted]; omega⟩
      · split
        · exact ⟨by simp [quoted], by simp only [quoted]; omega⟩
        · split
          · exact ⟨by simp [sound], by simp [sound]⟩
          · exact symbol_isFull _

/-- A sprite takes a character at least. -/
theorem sprite?_pos {chars : List Char} {size : Nat} (h : sprite? chars = some size) :
    0 < size ∧ chars ≠ [] := by
  unfold sprite? at h
  split at h
  · unfold quotedSprite? at h
    split at h
    · split at h
      · simp only [Option.some.injEq] at h
        exact ⟨by omega, by simp⟩
      · simp at h
    · simp at h
  · unfold bareSprite? at h
    split at h
    · dsimp only at h
      split at h
      · simp only [Option.some.injEq] at h
        exact ⟨by omega, by simp⟩
      · simp at h
    · simp at h

/-- Frames take a character at least. -/
theorem frames?_pos {chars : List Char} {size : Nat} (h : frames? chars = some size) :
    0 < size ∧ chars ≠ [] := by
  cases chars with
  | nil => simp [frames?, bareFrames?] at h
  | cons c rest =>
    refine ⟨?_, by simp⟩
    unfold frames? at h
    split at h
    · simp only [quotedFrames?] at h
      split at h
      · simp only [Option.some.injEq] at h
        omega
      · simp at h
    · simp only [bareFrames?] at h
      split at h
      · simp at h
      · rename_i hrun
        simp only [Option.some.injEq] at h
        have hne : (c :: rest).takeWhile isFrameChar ≠ [] := by
          intro he
          simp [he] at hrun
        have := List.length_pos_iff.mpr hne
        omega

/-- What a mode of its own reads takes a character at least. -/
theorem special?_isFull {mode : LexMode} {chars : List Char} {found : Scan}
    (h : special? mode chars = some found) : found.IsFull ∧ chars ≠ [] := by
  cases mode with
  | plain => simp [special?] at h
  | sprite =>
    simp only [special?, Option.map_eq_some_iff] at h
    obtain ⟨size, hs, rfl⟩ := h
    have hp := sprite?_pos hs
    exact ⟨⟨by simp [sound], hp.1⟩, hp.2⟩
  | frames =>
    simp only [special?, Option.map_eq_some_iff] at h
    obtain ⟨size, hs, rfl⟩ := h
    have hp := frames?_pos hs
    exact ⟨⟨by simp [sound], hp.1⟩, hp.2⟩
  | angle =>
    simp only [special?] at h
    split at h
    · rename_i hc
      simp only [Option.some.injEq] at h
      subst h
      refine ⟨⟨by simp [sound], by simp [sound]⟩, ?_⟩
      rintro rfl
      simp at hc
    · simp at h

end Scan

/-- A token is full wherever a character is left. -/
theorem scan_isFull (mode : LexMode) (preceding : Kind) {chars : List Char} (h : chars ≠ []) :
    (scan mode preceding chars).IsFull := by
  unfold scan
  cases hs : Scan.special? mode chars with
  | some found => exact (Scan.special?_isFull hs).1
  | none =>
    cases chars with
    | nil => exact absurd rfl h
    | cons c rest => exact Scan.plain_isFull preceding c rest

theorem scan_nil (mode : LexMode) (preceding : Kind) : scan mode preceding [] = .sound .eof 0 := by
  unfold scan
  cases hs : Scan.special? mode [] with
  | some found => exact absurd rfl (Scan.special?_isFull hs).2
  | none => rfl

theorem scan_kind_eq_eof_iff (mode : LexMode) (preceding : Kind) (chars : List Char) :
    (scan mode preceding chars).kind = .eof ↔ chars = [] := by
  constructor
  · intro h
    by_contra hne
    exact (scan_isFull mode preceding hne).1 h
  · rintro rfl
    rw [scan_nil]
    rfl

end ScriptTree

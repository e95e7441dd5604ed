import ScriptTree.Literal.Float
import ScriptTree.Proofs.Lexer.Spelling

/-!
How floating-point numbers are written. A number is written in decimals: digits, perhaps a point and
further digits, perhaps an exponent, and suffix letters. Digits can have single quotes among them.
The suffix can make a number with the mark of another base a floating-point number as well; nothing
else is taken for one.
-/

namespace ScriptTree

open Text

namespace FloatLiteral

def IsRun (digits : List Char) : Prop :=
  ∀ c ∈ digits, isDigit c = true ∨ c = '\''

def IsFraction (chars : List Char) : Prop :=
  ∃ digits, chars = '.' :: digits ∧ IsRun digits

def IsExponent (chars : List Char) : Prop :=
  ∃ mark sign digits, chars = mark :: (sign ++ digits) ∧ mark ∈ ['e', 'E'] ∧
    sign ∈ [[], ['+'], ['-']] ∧ IsRun digits ∧ ∃ c ∈ digits, isDigit c = true

/-- A floating-point number as it is written in decimals. -/
structure Spelling where
  sign : List Char
  whole : List Char
  fraction : List Char
  exponent : List Char
  suffix : List Char
  signs : sign ∈ [[], ['+'], ['-']]
  digits : IsRun whole
  point : fraction = [] ∨ IsFraction fraction
  power : exponent = [] ∨ IsExponent exponent
  full : ∃ c ∈ whole ++ fraction, isDigit c = true
  letters : ∀ c ∈ suffix, c ∈ ['u', 'U', 'l', 'L', 'f', 'F']

namespace Spelling

def body (spelling : Spelling) : List Char :=
  spelling.whole ++ (spelling.fraction ++ spelling.exponent)

def chars (spelling : Spelling) : List Char :=
  spelling.sign ++ (spelling.body ++ spelling.suffix)

end Spelling

def baseMarks : List Char :=
  ['x', 'X', 'b', 'B']

end FloatLiteral

namespace Number

open FloatLiteral Integer

variable {chars : List Char}

theorem isRun_digitRun (afterDigit : Bool) (chars : List Char) :
    IsRun (chars.take (digitRun 10 afterDigit chars)) := by
  intro c hmem
  have hall : ∀ c ∈ Base.decimal.digits, isDigit c = true := forall_mem_of_all (by decide)
  exact (digitRun_written 10 afterDigit chars c hmem).imp_left fun hdigit =>
    hall c (@Base.mem_digits .decimal c hdigit)

/-- A run that starts with a digit has it. -/
theorem exists_digit_of_head? (h : chars.head?.any isDigit = true) :
    ∃ c ∈ chars.take (digitRun 10 false chars), isDigit c = true := by
  obtain ⟨c, hhead, hc⟩ := (Option.any_eq_true _ _).mp h
  obtain ⟨rest, rfl⟩ := List.head?_eq_some_iff.mp hhead
  refine ⟨c, ?_, hc⟩
  rw [digitRun, if_pos (isDigitOf_ten hc), Nat.add_comm, List.take_succ_cons]
  exact List.mem_cons_self

theorem fraction_take (chars : List Char) :
    chars.take (fraction chars) = [] ∨ IsFraction (chars.take (fraction chars)) := by
  unfold fraction
  split
  · next rest =>
    split
    · refine Or.inr ⟨rest.take (digitRun 10 false rest), ?_, isRun_digitRun _ _⟩
      rw [Nat.add_comm, List.take_succ_cons]
    · exact Or.inl rfl
  · exact Or.inl rfl

/-- What is taken as an exponent is nothing or is one. -/
theorem exponent_take (chars : List Char) :
    chars.take (exponent chars) = [] ∨ IsExponent (chars.take (exponent chars)) := by
  unfold exponent
  split
  · next c rest =>
    split
    · next hmark =>
      have hletter : c ∈ ['e', 'E'] := by simpa using hmark
      split
      · next d more =>
        split
        · next hsigned =>
          rw [Bool.and_eq_true, Bool.or_eq_true, beq_iff_eq, beq_iff_eq] at hsigned
          have hsign : [d] ∈ [[], ['+'], ['-']] := by
            rcases hsigned.1 with rfl | rfl <;> decide
          refine Or.inr ⟨c, [d], more.take (digitRun 10 false more), ?_, hletter, hsign,
            isRun_digitRun _ _, exists_digit_of_head? hsigned.2⟩
          rw [Nat.add_comm, List.take_succ_cons, List.take_succ_cons]
          rfl
        split
        · next hdigit =>
          refine Or.inr ⟨c, [], (d :: more).take (digitRun 10 false (d :: more)), ?_, hletter,
            List.mem_cons_self, isRun_digitRun _ _, exists_digit_of_head? hdigit⟩
          rw [Nat.add_comm, List.take_succ_cons]
          rfl
        · exact Or.inl rfl
      · exact Or.inl rfl
    · exact Or.inl rfl
  · exact Or.inl rfl

/-- Where a number starts there is a digit in front of the point or behind it. -/
theorem exists_digit_of_startsUnsigned (h : startsUnsigned chars = true) :
    ∃ c ∈ chars.take (digitRun 10 false chars + fraction (chars.drop (digitRun 10 false chars))),
      isDigit c = true := by
  cases chars with
  | nil => cases h
  | cons c rest =>
    rw [startsUnsigned_cons] at h
    split at h
    · next hpoint =>
      obtain ⟨rfl, -⟩ := hpoint
      have hrun : digitRun 10 false ('.' :: rest) = 0 := rfl
      obtain ⟨d, hhead, hd⟩ := (Option.any_eq_true _ _).mp h
      have hfraction : startsFraction rest.head? = true := by
        rw [hhead]
        exact startsFraction_of_isDigit hd
      obtain ⟨e, hmem, he⟩ := exists_digit_of_head? h
      refine ⟨e, ?_, he⟩
      rw [hrun, List.drop_zero, fraction_cons, if_pos rfl, if_pos hfraction, Nat.zero_add,
        Nat.add_comm, List.take_succ_cons]
      exact List.mem_cons_of_mem _ hmem
    · obtain ⟨e, hmem, he⟩ := @exists_digit_of_head? (c :: rest) h
      rw [List.take_add]
      exact ⟨e, List.mem_append_left _ hmem, he⟩

/-- A number without the mark of a base is written in decimals. -/
theorem exists_decimal_of_unmarked (hmarked : marked? chars = none)
    (hstarts : startsUnsigned chars = true) :
    ∃ spelling : FloatLiteral.Spelling, spelling.sign = [] ∧
      spelling.chars = chars.take (unsigned chars).1 := by
  let whole := digitRun 10 false chars
  let point := fraction (chars.drop whole)
  let power := exponent (chars.drop (whole + point))
  have hunsigned : unsigned chars =
      withSuffix chars (whole + point + power) (0 < point || 0 < power) := by
    rw [unsigned, hmarked]
  obtain ⟨suffix, hletters, htake, -⟩ :=
    withSuffix_take chars (whole + point + power) (0 < point || 0 < power)
  have hdigit := exists_digit_of_startsUnsigned hstarts
  rw [List.take_add] at hdigit
  refine ⟨{
    sign := [], whole := chars.take whole, fraction := (chars.drop whole).take point
    exponent := (chars.drop (whole + point)).take power, suffix
    signs := List.mem_cons_self
    digits := isRun_digitRun _ _
    point := fraction_take _
    power := exponent_take _
    full := hdigit
    letters := fun c hmem => mem_of_isSuffix (hletters c hmem) }, rfl, ?_⟩
  rw [hunsigned, htake, List.take_add, List.take_add]
  simp only [FloatLiteral.Spelling.chars, FloatLiteral.Spelling.body, List.nil_append,
    List.append_assoc]

/-- The mark of a base stands in the number. -/
theorem exists_baseMark {size : Nat} (h : marked? chars = some size) :
    ∃ c ∈ baseMarks, c ∈ chars.take (unsigned chars).1 := by
  obtain ⟨suffix, -, htake, -⟩ := withSuffix_take chars size false
  rw [unsigned, h]
  dsimp only
  rw [htake]
  unfold marked? at h
  split at h
  case h_2 => cases h
  case h_1 mark rest =>
    change (if rest.head?.any (isDigitOf (radixOf mark)) then
      some (2 + digitRun (radixOf mark) false rest) else none) = some size at h
    obtain ⟨hnext, hsize⟩ := Option.ite_none_right_eq_some.mp h
    obtain ⟨d, -, hd⟩ := (Option.any_eq_true _ _).mp hnext
    obtain ⟨base, -, hmark, hdecimal⟩ := exists_base hd
    refine ⟨mark, ?_, ?_⟩
    · cases base with
      | hexadecimal | binary =>
        simp only [Base.marks, List.mem_cons, List.cons.injEq, and_true, true_and,
          List.not_mem_nil, or_false] at hmark
        rcases hmark with rfl | rfl <;> decide
      | octal => cases List.mem_singleton.mp hmark
      | decimal => exact absurd rfl hdecimal
    · rw [← Option.some.inj hsize, Nat.add_comm, List.take_succ_cons, List.take_succ_cons]
      exact List.mem_append_left _ (List.mem_cons_of_mem _ List.mem_cons_self)

theorem exists_decimal_of_unsigned (hstarts : startsUnsigned chars = true) :
    (∃ spelling : FloatLiteral.Spelling, spelling.sign = [] ∧
      spelling.chars = chars.take (unsigned chars).1) ∨
    ∃ c ∈ baseMarks, c ∈ chars.take (unsigned chars).1 := by
  cases hmarked : marked? chars with
  | none => exact Or.inl (exists_decimal_of_unmarked hmarked hstarts)
  | some size => exact Or.inr (exists_baseMark hmarked)

/-- A number is written in decimals, or it has the mark of another base. -/
theorem exists_decimal {preceding : Kind} (hstarts : starts preceding chars = true) :
    (∃ spelling : FloatLiteral.Spelling, spelling.chars = chars.take (measure chars).1) ∨
    ∃ c ∈ baseMarks, c ∈ chars.take (measure chars).1 := by
  obtain ⟨sign, rest, hsign, hrest, -, htake⟩ := exists_sign_take hstarts
  rw [htake]
  rcases exists_decimal_of_unsigned hrest with ⟨spelling, hnone, hchars⟩ | ⟨mark, hmark, hmem⟩
  · refine Or.inl ⟨{ spelling with sign, signs := hsign }, ?_⟩
    rw [FloatLiteral.Spelling.chars, hnone, List.nil_append] at hchars
    rw [← hchars]
    rfl
  · exact Or.inr ⟨mark, hmark, List.mem_append_right _ hmem⟩

end Number

/-- Whatever is read as a floating-point number is written in decimals, or has the mark of another
base. -/
theorem scan_floatNumber {mode : LexMode} {preceding : Kind} {chars : List Char}
    (h : (scan mode preceding chars).kind = .floatNumber) :
    (∃ spelling : FloatLiteral.Spelling,
      spelling.chars = chars.take (scan mode preceding chars).size) ∨
    ∃ c ∈ FloatLiteral.baseMarks, c ∈ chars.take (scan mode preceding chars).size := by
  obtain ⟨starts, hscan⟩ := scan_number (by rw [h]; decide)
  rw [hscan]
  exact Number.exists_decimal starts

end ScriptTree

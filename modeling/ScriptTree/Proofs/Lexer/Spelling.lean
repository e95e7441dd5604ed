import Mathlib.Data.Nat.Digits.Defs
import ScriptTree.Literal.Integer
import ScriptTree.Proofs.Lexer.Case
import ScriptTree.Proofs.Lexer.Ordinary

/-!
How integers are written: a sign or none, the mark of a base, digits with single quotes among them,
and suffix letters. A lexer takes nothing else for an integer, so that each integer of a text is
spelled in one of the four bases. A leading zero marks the octal base, whatever digits follow.
-/

namespace ScriptTree

open Text

namespace Integer

inductive Base where
  | hexadecimal | binary | octal | decimal
  deriving DecidableEq, Repr

def figures : List Char :=
  ['0', '1', '2', '3', '4', '5', '6', '7', '8', '9', 'a', 'b', 'c', 'd', 'e', 'f',
   'A', 'B', 'C', 'D', 'E', 'F']

def figureValue (c : Char) : Nat :=
  (figures.take 16).idxOf c.toLower

namespace Base

def radix : Base → Nat
  | hexadecimal => 16
  | binary => 2
  | octal => 8
  | decimal => 10

def marks : Base → List (List Char)
  | hexadecimal => [['0', 'x'], ['0', 'X']]
  | binary => [['0', 'b'], ['0', 'B']]
  | octal => [['0']]
  | decimal => [[]]

/-- What may be written as a digit. Octal integers are written with all decimal digits. -/
def digits : Base → List Char
  | hexadecimal => figures
  | binary => figures.take 2
  | octal => figures.take 10
  | decimal => figures.take 10

end Base

/-- An integer as it is written. A decimal one does not start with zero unless it is zero. -/
structure Spelling where
  sign : List Char
  base : Base
  mark : List Char
  body : List Char
  suffix : List Char
  signs : sign ∈ [[], ['+'], ['-']]
  marks : mark ∈ base.marks
  written : ∀ c ∈ body, c ∈ base.digits ∨ c = '\''
  full : ∃ c ∈ body, c ≠ '\''
  letters : ∀ c ∈ suffix, c ∈ ['u', 'U', 'l', 'L']
  leads : base = .decimal → body.head? = some '0' → body = ['0']

namespace Spelling

def chars (spelling : Spelling) : List Char :=
  spelling.sign ++ (spelling.mark ++ (spelling.body ++ spelling.suffix))

def digits (spelling : Spelling) : List Char :=
  spelling.body.filter (· != '\'')

def IsValid (spelling : Spelling) : Prop :=
  ∀ c ∈ spelling.digits, figureValue c < spelling.base.radix

instance (spelling : Spelling) : Decidable spelling.IsValid :=
  List.decidableBAll _ _

def magnitude (spelling : Spelling) : Nat :=
  Nat.ofDigits spelling.base.radix (spelling.digits.map figureValue).reverse

def value (spelling : Spelling) : Int :=
  if spelling.sign = ['-'] then -spelling.magnitude else spelling.magnitude

end Spelling

/-- What holds of all ASCII characters can be checked. -/
theorem of_ascii {p : Char → Prop} (h : ∀ code < 128, p (Char.ofNat code)) {c : Char}
    (hc : c.toNat < 128) : p c := by
  have hcode := h c.toNat hc
  rwa [Char.ofNat_toNat] at hcode

/-- What holds of all characters of a list is checked one by one. -/
theorem forall_mem_of_all {p : Char → Prop} [DecidablePred p] {chars : List Char}
    (h : chars.all (fun c => decide (p c)) = true) : ∀ c ∈ chars, p c :=
  fun c hmem => of_decide_eq_true (List.all_eq_true.mp h c hmem)

/-- Digits are ASCII characters. -/
theorem toNat_lt_of_isDigitOf {radix : Nat} {c : Char} (h : isDigitOf radix c = true) :
    c.toNat < 128 := by
  obtain ⟨value, hvalue⟩ := Option.isSome_iff_exists.mp h
  obtain ⟨hvalue, -⟩ := Option.filter_eq_some_iff.mp hvalue
  have hbound {low high : Char} (hhigh : high.toNat < 128)
      (hc : (decide (low ≤ c) && decide (c ≤ high)) = true) : c.toNat < 128 :=
    Nat.lt_of_le_of_lt (of_decide_eq_true (Bool.and_eq_true_iff.mp hc).2) hhigh
  split at hvalue
  · next hdigit => exact hbound (by decide) hdigit
  split at hvalue
  · next hsmall => exact hbound (by decide) hsmall
  split at hvalue
  · next hcapital => exact hbound (by decide) hcapital
  · cases hvalue

/-- A digit of a base is written as one. -/
theorem Base.mem_digits {base : Base} {c : Char} (h : isDigitOf base.radix c = true) :
    c ∈ base.digits := by
  refine @of_ascii (fun c => isDigitOf base.radix c = true → c ∈ base.digits) ?_ c
    (toNat_lt_of_isDigitOf h) h
  cases base <;> decide

end Integer

/-- What holds of the ten digits holds of all digits. -/
theorem Text.of_isDigit {p : Char → Prop} [DecidablePred p]
    (h : (Integer.figures.take 10).all (fun c => decide (p c)) = true) {c : Char}
    (hc : isDigit c = true) : p c :=
  Integer.forall_mem_of_all h c (@Integer.Base.mem_digits .decimal c (Number.isDigitOf_ten hc))

namespace Number

open Integer

/-- A run of digits takes digits and separators. -/
theorem digitRun_written (radix : Nat) (afterDigit : Bool) (chars : List Char) :
    ∀ c ∈ chars.take (digitRun radix afterDigit chars), isDigitOf radix c = true ∨ c = '\'' := by
  fun_induction digitRun radix afterDigit chars with
  | case1 => nofun
  | case2 afterDigit c rest hdigit ih =>
    rw [Nat.add_comm, List.take_succ_cons]
    exact List.forall_mem_cons.mpr ⟨Or.inl hdigit, ih⟩
  | case3 afterDigit c rest hdigit hseparates ih =>
    have hquote : c = '\'' := by
      simp only [Bool.and_eq_true, beq_iff_eq] at hseparates
      exact hseparates.1.1
    rw [Nat.add_comm, List.take_succ_cons]
    exact List.forall_mem_cons.mpr ⟨Or.inr hquote, ih⟩
  | case4 => nofun

/-- A digit comes last in a run of digits: a separator is taken with a digit behind it. -/
theorem digitRun_last (radix : Nat) (afterDigit : Bool) (chars : List Char) :
    ∀ c ∈ (chars.take (digitRun radix afterDigit chars)).getLast?, isDigitOf radix c = true := by
  fun_induction digitRun radix afterDigit chars with
  | case1 => nofun
  | case2 afterDigit c rest hdigit ih =>
    rw [Nat.add_comm, List.take_succ_cons, List.getLast?_cons]
    cases hlast : (rest.take (digitRun radix true rest)).getLast? with
    | none =>
      rintro d ⟨⟩
      exact hdigit
    | some last =>
      rintro d ⟨⟩
      exact ih last hlast
  | case3 afterDigit c rest hdigit hseparates ih =>
    have hnext : rest.head?.any (isDigitOf radix) = true := by
      simp only [Bool.and_eq_true] at hseparates
      exact hseparates.2
    obtain ⟨d, hhead, hd⟩ := (Option.any_eq_true _ _).mp hnext
    obtain ⟨more, rfl⟩ := List.head?_eq_some_iff.mp hhead
    have hpos : 0 < digitRun radix false (d :: more) := digitRun_pos hd
    rw [Nat.add_comm, List.take_succ_cons, List.getLast?_cons]
    cases hlast : ((d :: more).take (digitRun radix false (d :: more))).getLast? with
    | none =>
      rw [List.getLast?_eq_none_iff, List.take_eq_nil_iff] at hlast
      rcases hlast with hzero | hnil
      · omega
      · cases hnil
    | some last =>
      rintro e ⟨⟩
      exact ih last hlast
  | case4 => nofun

/-- A run that is not empty has a digit. -/
theorem digitRun_full {radix : Nat} {chars : List Char} {body : List Char}
    (hsuffix : body <:+ chars.take (digitRun radix false chars)) (hne : body ≠ []) :
    ∃ c ∈ body, c ≠ '\'' := by
  obtain ⟨last, hlast⟩ := Option.ne_none_iff_exists'.mp (mt List.getLast?_eq_none_iff.mp hne)
  have hdigit : isDigitOf radix last = true := by
    obtain ⟨front, hfront⟩ := hsuffix
    apply digitRun_last radix false chars last
    rw [← hfront, List.getLast?_append, hlast]
    rfl
  refine ⟨last, List.mem_of_getLast? hlast, ?_⟩
  rintro rfl
  cases hdigit

theorem mem_of_isSuffix {c : Char} (h : isSuffix c = true) :
    c ∈ ['u', 'U', 'l', 'L', 'f', 'F'] := by
  unfold isSuffix at h
  split at h
  case h_7 => cases h
  all_goals decide

/-- Behind its digits a number has suffix letters. -/
theorem withSuffix_take (chars : List Char) (size : Nat) (isFloat : Bool) :
    ∃ suffix : List Char, (∀ c ∈ suffix, isSuffix c = true) ∧
      chars.take (withSuffix chars size isFloat).1 = chars.take size ++ suffix ∧
      (withSuffix chars size isFloat).2 =
        if isFloat || suffix.any isFloatSuffix then .floatNumber else .intNumber := by
  let suffix := (chars.drop size).takeWhile isSuffix
  refine ⟨suffix, List.all_eq_true.mp List.all_takeWhile, ?_, rfl⟩
  have htake : (chars.drop size).take suffix.length = suffix :=
    (List.prefix_iff_eq_take.mp (List.takeWhile_prefix _)).symm
  change chars.take (size + suffix.length) = _
  rw [List.take_add, htake]

/-- An integer with a suffix has no letter in it that makes a floating-point number. -/
theorem withSuffix_int {chars : List Char} {size : Nat} {isFloat : Bool}
    (h : (withSuffix chars size isFloat).2 = .intNumber) :
    isFloat = false ∧ ∃ suffix : List Char, (∀ c ∈ suffix, c ∈ ['u', 'U', 'l', 'L']) ∧
      chars.take (withSuffix chars size isFloat).1 = chars.take size ++ suffix := by
  obtain ⟨suffix, hletters, htake, hkind⟩ := withSuffix_take chars size isFloat
  have hplain : isFloat = false ∧ suffix.any isFloatSuffix = false := by
    rw [hkind] at h
    split at h
    · cases h
    · next hfloat => simpa using hfloat
  obtain ⟨hfloat, hany⟩ := hplain
  refine ⟨hfloat, suffix, fun c hmem => ?_, htake⟩
  have hall : ∀ c ∈ ['u', 'U', 'l', 'L', 'f', 'F'], isFloatSuffix c = false →
      c ∈ ['u', 'U', 'l', 'L'] := forall_mem_of_all (by decide)
  exact hall c (mem_of_isSuffix (hletters c hmem))
    (Bool.eq_false_iff.mpr (List.any_eq_false.mp hany c hmem))

/-- No character is a digit of radix zero. -/
theorem isDigitOf_zero (c : Char) : isDigitOf 0 c = false := by
  rw [isDigitOf, Bool.eq_false_iff, ne_eq, Option.isSome_iff_exists]
  rintro ⟨value, hvalue⟩
  obtain ⟨-, hlt⟩ := Option.filter_eq_some_iff.mp hvalue
  exact absurd (of_decide_eq_true hlt) (Nat.not_lt_zero value)

/-- The marks of the hexadecimal and of the binary base. -/
theorem exists_base {mark d : Char} (h : isDigitOf (radixOf mark) d = true) :
    ∃ base : Base, base.radix = radixOf mark ∧ ['0', mark] ∈ base.marks ∧ base ≠ .decimal := by
  unfold radixOf at h ⊢
  split
  · next hmark =>
    refine ⟨.hexadecimal, rfl, ?_, nofun⟩
    simpa [Base.marks] using hmark
  split
  · next hmark =>
    refine ⟨.binary, rfl, ?_, nofun⟩
    simpa [Base.marks] using hmark
  · next hhex hbin =>
    rw [if_neg hhex, if_neg hbin, isDigitOf_zero] at h
    cases h

variable {chars : List Char}

/-- A number with a radix mark is spelled by its mark, its digits and its suffix. -/
theorem exists_spelling_of_marked {size : Nat} (hmarked : marked? chars = some size)
    (h : (withSuffix chars size false).2 = .intNumber) :
    ∃ spelling : Spelling, spelling.sign = [] ∧
      spelling.chars = chars.take (withSuffix chars size false).1 := by
  obtain ⟨-, suffix, hletters, htake⟩ := withSuffix_int h
  unfold marked? at hmarked
  split at hmarked
  case h_2 => cases hmarked
  case h_1 mark rest =>
    change (if rest.head?.any (isDigitOf (radixOf mark)) then
      some (2 + digitRun (radixOf mark) false rest) else none) = some size at hmarked
    obtain ⟨hnext, hsize⟩ := Option.ite_none_right_eq_some.mp hmarked
    obtain rfl := Option.some.inj hsize
    obtain ⟨d, hhead, hd⟩ := (Option.any_eq_true _ _).mp hnext
    obtain ⟨more, rfl⟩ := List.head?_eq_some_iff.mp hhead
    obtain ⟨base, hradix, hmark, hbase⟩ := exists_base hd
    rw [← hradix] at hd htake ⊢
    let body := (d :: more).take (digitRun base.radix false (d :: more))
    have hne : body ≠ [] := by
      have hpos : 0 < digitRun base.radix false (d :: more) := digitRun_pos hd
      intro hnil
      rcases List.take_eq_nil_iff.mp hnil with hzero | hcons
      · omega
      · cases hcons
    refine ⟨{
      sign := [], base, mark := ['0', mark], body, suffix
      signs := List.mem_cons_self
      marks := hmark
      written := fun c hmem => (digitRun_written _ _ _ c hmem).imp_left Base.mem_digits
      full := digitRun_full (List.suffix_refl _) hne
      letters := hletters
      leads := fun hdecimal => absurd hdecimal hbase }, rfl, ?_⟩
    rw [htake, Nat.add_comm]
    rfl

/-- A run of decimal digits is a spelling, and octal if it starts with a zero. -/
theorem exists_spelling_of_unmarked (hne : chars.take (digitRun 10 false chars) ≠ [])
    {suffix : List Char} (hletters : ∀ c ∈ suffix, c ∈ ['u', 'U', 'l', 'L']) :
    ∃ spelling : Spelling, spelling.sign = [] ∧
      spelling.chars = chars.take (digitRun 10 false chars) ++ suffix := by
  let run := chars.take (digitRun 10 false chars)
  have hwritten : ∀ c ∈ run, c ∈ Base.decimal.digits ∨ c = '\'' := fun c hmem =>
    (digitRun_written 10 false chars c hmem).imp_left (@Base.mem_digits .decimal c)
  by_cases hoctal : ∃ more, run = '0' :: more ∧ more ≠ []
  · -- the zero in front is the mark of the octal base
    obtain ⟨more, hrun, hmore⟩ := hoctal
    refine ⟨{
      sign := [], base := .octal, mark := ['0'], body := more, suffix
      signs := List.mem_cons_self
      marks := List.mem_cons_self
      written := fun c hmem => hwritten c (hrun ▸ List.mem_cons_of_mem _ hmem)
      full := digitRun_full ⟨['0'], hrun.symm⟩ hmore
      letters := hletters
      leads := nofun }, rfl, ?_⟩
    change '0' :: (more ++ suffix) = run ++ suffix
    rw [hrun]
    rfl
  · refine ⟨{
      sign := [], base := .decimal, mark := [], body := run, suffix
      signs := List.mem_cons_self
      marks := List.mem_cons_self
      written := hwritten
      full := digitRun_full (List.suffix_refl _) hne
      letters := hletters
      leads := ?_ }, rfl, rfl⟩
    intro _ hhead
    obtain ⟨more, hrun⟩ := List.head?_eq_some_iff.mp hhead
    cases more with
    | nil => exact hrun
    | cons c rest => exact absurd ⟨c :: rest, hrun, List.cons_ne_nil _ _⟩ hoctal

/-- An integer starts with a digit. -/
theorem digitRun_pos_of_int (hstarts : startsUnsigned chars = true)
    (hpoint : fraction (chars.drop (digitRun 10 false chars)) = 0) :
    0 < digitRun 10 false chars := by
  cases chars with
  | nil => cases hstarts
  | cons c rest =>
    rw [startsUnsigned_cons] at hstarts
    split at hstarts
    · next hdot =>
      -- a point and a digit would start a fraction
      obtain ⟨rfl, -⟩ := hdot
      obtain ⟨d, hhead, hd⟩ := (Option.any_eq_true _ _).mp hstarts
      have hrun : digitRun 10 false ('.' :: rest) = 0 := rfl
      have hfraction : startsFraction rest.head? = true := by
        rw [hhead]
        exact startsFraction_of_isDigit hd
      rw [hrun, List.drop_zero, fraction_cons, if_pos rfl, if_pos hfraction] at hpoint
      omega
    · exact digitRun_pos (isDigitOf_ten hstarts)

/-- An unsigned integer is spelled with a radix mark or without one. -/
theorem exists_spelling_of_unsigned (hstarts : startsUnsigned chars = true)
    (h : (unsigned chars).2 = .intNumber) :
    ∃ spelling : Spelling, spelling.sign = [] ∧
      spelling.chars = chars.take (unsigned chars).1 := by
  unfold unsigned at h ⊢
  cases hmarked : marked? chars with
  | some size =>
    rw [hmarked] at h
    exact exists_spelling_of_marked hmarked h
  | none =>
    rw [hmarked] at h
    dsimp only at h ⊢
    obtain ⟨hfloat, suffix, hletters, htake⟩ := withSuffix_int h
    simp only [Bool.or_eq_false_iff, decide_eq_false_iff_not, Nat.not_lt, Nat.le_zero] at hfloat
    obtain ⟨hpoint, hpower⟩ := hfloat
    have hpos := digitRun_pos_of_int hstarts hpoint
    have hne : chars.take (digitRun 10 false chars) ≠ [] := by
      intro hnil
      rcases List.take_eq_nil_iff.mp hnil with hzero | hchars
      · omega
      · rw [hchars] at hstarts
        cases hstarts
    rw [htake, hpower, hpoint]
    exact exists_spelling_of_unmarked hne hletters

/-- A number is a sign, if it has one, and what is measured behind it. -/
theorem exists_sign_take {preceding : Kind} (hstarts : starts preceding chars = true) :
    ∃ sign rest, sign ∈ [[], ['+'], ['-']] ∧ startsUnsigned rest = true ∧
      (measure chars).2 = (unsigned rest).2 ∧
      chars.take (measure chars).1 = sign ++ rest.take (unsigned rest).1 := by
  cases chars with
  | nil => cases hstarts
  | cons c rest =>
    simp only [starts] at hstarts
    simp only [measure]
    by_cases hsign : (c == '-' || c == '+') = true
    · rw [if_pos hsign] at hstarts ⊢
      refine ⟨[c], rest, ?_, (Bool.and_eq_true_iff.mp hstarts).1, rfl, ?_⟩
      · rcases Bool.or_eq_true_iff.mp hsign with hc | hc
        · rw [beq_iff_eq.mp hc]
          decide
        · rw [beq_iff_eq.mp hc]
          decide
      · rw [Nat.add_comm, List.take_succ_cons]
        rfl
    · rw [if_neg hsign] at hstarts ⊢
      exact ⟨[], c :: rest, List.mem_cons_self, hstarts, rfl, rfl⟩

/-- Where a number is read as an integer, it is spelled as one. -/
theorem exists_spelling {preceding : Kind} (hstarts : starts preceding chars = true)
    (h : (measure chars).2 = .intNumber) :
    ∃ spelling : Spelling, spelling.chars = chars.take (measure chars).1 := by
  obtain ⟨sign, rest, hsign, hrest, hkind, htake⟩ := exists_sign_take hstarts
  obtain ⟨spelling, hnone, hchars⟩ := exists_spelling_of_unsigned hrest (hkind.symm.trans h)
  refine ⟨{ spelling with sign, signs := hsign }, ?_⟩
  rw [Spelling.chars, hnone, List.nil_append] at hchars
  rw [htake, ← hchars]
  rfl

end Number

/-- Whatever is read as a number starts like one, and takes what is measured of it. -/
theorem scan_number {mode : LexMode} {preceding : Kind} {chars : List Char}
    (h : (scan mode preceding chars).kind ∈ [.intNumber, .floatNumber]) :
    Number.starts preceding chars = true ∧
      scan mode preceding chars = .sound (Number.measure chars).2 (Number.measure chars).1 := by
  rcases scan_cases mode preceding chars with hspecial | hordinary
  · obtain ⟨size, -, hfound⟩ | ⟨size, -, hfound⟩ | ⟨-, hfound⟩ := Scan.special?_eq hspecial
    all_goals
      rw [hfound] at h
      exact absurd h (by simp [Scan.sound])
  · generalize scan mode preceding chars = found at h hordinary
    have hwords : ∀ kind ∈ keywords.map Prod.snd, kind ∉ [.intNumber, .floatNumber] := by decide
    have hoperators :
      ∀ kind ∈ operators.map Prod.snd, kind ∉ [.intNumber, .floatNumber] := by decide
    cases hordinary with
    | number starts => exact ⟨starts, rfl⟩
    | ended => exact absurd h (by decide)
    | @word c rest start =>
      rcases Scan.word_kind (c :: rest) with hkind | hkind
      · rw [hkind] at h
        exact absurd h (by decide)
      · exact absurd h (hwords _ hkind)
    | string rest => exact absurd h (by simp [Scan.quoted])
    | name rest => exact absurd h (by simp [Scan.quoted])
    | directive directs => exact absurd h (by decide)
    | symbol noNumber =>
      rcases Scan.symbol_kind chars with hkind | hkind
      · rw [hkind] at h
        exact absurd h (by decide)
      · exact absurd h (hoperators _ hkind)

/-- Whatever is read as an integer is spelled as one. -/
theorem scan_intNumber {mode : LexMode} {preceding : Kind} {chars : List Char}
    (h : (scan mode preceding chars).kind = .intNumber) :
    ∃ spelling : Integer.Spelling,
      spelling.chars = chars.take (scan mode preceding chars).size := by
  obtain ⟨starts, hscan⟩ := scan_number (by rw [h]; decide)
  rw [hscan] at h ⊢
  exact Number.exists_spelling starts h

end ScriptTree

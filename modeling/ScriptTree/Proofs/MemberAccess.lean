import Mathlib.Data.List.TakeWhile
import ScriptTree.Proofs.Lexer.Bare
import ScriptTree.Proofs.Lexer.Standing

/-!
Members of integers. A point behind digits is an operator if a name follows it, so that an integer
can be followed by one of its members. But a letter that can start an exponent or a suffix starts a
fraction behind the point, whatever comes after it: where the name starts with `e` or `f`, the point
is taken for the one of a floating-point number.
-/

namespace ScriptTree

open Text

namespace Text

def IsNumeral (chars : List Char) : Prop :=
  chars ≠ [] ∧ ∀ c ∈ chars, isDigit c = true

def IsName (chars : List Char) : Prop :=
  ∃ c rest, chars = c :: rest ∧ isNameStart c = true ∧ ∀ d ∈ rest, isNamePart d = true

end Text

def Number.fractionLetters : List Char :=
  ['e', 'E', 'f', 'F']

namespace Text

theorem toNat_lt_of_isNameStart {c : Char} (h : isNameStart c = true) : c.toNat < 128 := by
  simp only [isNameStart, isLetter, Bool.or_eq_true, Bool.and_eq_true, decide_eq_true_eq,
    beq_iff_eq] at h
  rcases h with (⟨-, hle⟩ | ⟨-, hle⟩) | rfl
  · exact Nat.lt_of_le_of_lt hle (by decide)
  · exact Nat.lt_of_le_of_lt hle (by decide)
  · decide

theorem of_isNameStart {p : Char → Prop}
    (h : ∀ code < 128, isNameStart (Char.ofNat code) = true → p (Char.ofNat code)) {c : Char}
    (hc : isNameStart c = true) : p c :=
  @Integer.of_ascii (fun c => isNameStart c = true → p c) h c (toNat_lt_of_isNameStart hc) hc

end Text

namespace Number

/-- Digits in front of a point are one run. -/
theorem digitRun_numeral {digits : List Char} (h : ∀ c ∈ digits, isDigit c = true)
    (afterDigit : Bool) (rest : List Char) :
    digitRun 10 afterDigit (digits ++ '.' :: rest) = digits.length := by
  induction digits generalizing afterDigit with
  | nil => rfl
  | cons c more ih =>
    obtain ⟨hc, hmore⟩ := List.forall_mem_cons.mp h
    rw [List.cons_append, digitRun, if_pos (isDigitOf_ten hc), ih hmore, List.length_cons,
      Nat.add_comm]

theorem marked?_of_radixOf {mark : Char} (h : radixOf mark = 0) (c : Char) (rest : List Char) :
    marked? (c :: mark :: rest) = none := by
  have hnone : rest.head?.any (isDigitOf 0) = false := by
    cases rest.head? with
    | none => rfl
    | some d => exact isDigitOf_zero d
  rw [marked?_cons, h, hnone]
  split <;> rfl

/-- Digits in front of a point have no mark of a base among them. -/
theorem marked?_numeral {digits : List Char} (h : IsNumeral digits) (rest : List Char) :
    marked? (digits ++ '.' :: rest) = none := by
  obtain ⟨hne, hdigits⟩ := h
  match digits with
  | [] => exact absurd rfl hne
  | [c] => exact marked?_of_radixOf rfl c rest
  | c :: d :: more =>
    have hd : isDigit d = true := hdigits d (List.mem_cons_of_mem _ List.mem_cons_self)
    have hradix : radixOf d = 0 := @of_isDigit (fun d => radixOf d = 0) _ (by decide) d hd
    exact marked?_of_radixOf hradix c _

/-- Digits are an integer if the point behind them does not start a fraction. -/
theorem unsigned_of_not_startsFraction {digits rest : List Char} (h : IsNumeral digits)
    (hrest : startsFraction rest.head? = false) :
    unsigned (digits ++ '.' :: rest) = (digits.length, .intNumber) := by
  have hpoint : fraction ('.' :: rest) = 0 := by
    rw [fraction_cons, if_pos rfl, hrest]
    rfl
  have hpower : exponent ('.' :: rest) = 0 := rfl
  have hsuffix : ('.' :: rest).takeWhile isSuffix = [] := rfl
  rw [unsigned, marked?_numeral h]
  simp only [digitRun_numeral h.2, List.drop_left, hpoint, Nat.add_zero, hpower, withSuffix,
    hsuffix]
  rfl

/-- Otherwise they are the front of a floating-point number, to which the point belongs. -/
theorem unsigned_of_startsFraction {digits rest : List Char} (h : IsNumeral digits)
    (hrest : startsFraction rest.head? = true) :
    (unsigned (digits ++ '.' :: rest)).2 = .floatNumber ∧
      digits.length + 1 ≤ (unsigned (digits ++ '.' :: rest)).1 := by
  have hpoint : fraction ('.' :: rest) = 1 + digitRun 10 false rest := by
    rw [fraction_cons, if_pos rfl, if_pos hrest]
  have hfloat : 0 < fraction ('.' :: rest) := by omega
  rw [unsigned, marked?_numeral h]
  simp only [digitRun_numeral h.2, List.drop_left]
  refine ⟨?_, ?_⟩
  · simp only [withSuffix, decide_eq_true hfloat, Bool.true_or, if_true]
  · refine Nat.le_trans ?_ (le_withSuffix _ _ _)
    omega

end Number

namespace Scan

/-- Where a digit stands, an unsigned number is read. -/
theorem scan_numeral {digits : List Char} (h : IsNumeral digits) (preceding : Kind)
    (rest : List Char) : scan .plain preceding (digits ++ rest) =
      .sound (Number.unsigned (digits ++ rest)).2 (Number.unsigned (digits ++ rest)).1 := by
  obtain ⟨hne, hdigits⟩ := h
  obtain ⟨c, more, rfl⟩ := List.exists_cons_of_ne_nil hne
  have hc : isDigit c = true := hdigits c List.mem_cons_self
  have hother : c ≠ '-' ∧ c ≠ '+' ∧ c ≠ '.' :=
    @of_isDigit (fun c => c ≠ '-' ∧ c ≠ '+' ∧ c ≠ '.') _ (by decide) c hc
  obtain ⟨hminus, hplus, hpoint⟩ := hother
  have hstarts : Number.starts preceding (c :: (more ++ rest)) = true := by
    simp [Number.starts, Number.startsUnsigned_cons, hminus, hplus, hpoint, hc]
  have hmeasure : Number.measure (c :: (more ++ rest)) = Number.unsigned (c :: (more ++ rest)) := by
    simp [Number.measure, hminus, hplus]
  change plain preceding (c :: (more ++ rest)) = _
  simp only [plain, hstarts, if_true, hmeasure, List.cons_append]

/-- A point in front of a name is an operator. -/
theorem scan_point {c : Char} (h : isNameStart c = true) (preceding : Kind) (rest : List Char) :
    scan .plain preceding ('.' :: c :: rest) = sound .dot 1 := by
  have hother : isDigit c = false ∧ '.' ≠ c :=
    @of_isNameStart (fun c => isDigit c = false ∧ '.' ≠ c) (by decide) c h
  obtain ⟨hdigit, hpoint⟩ := hother
  have hstarts : Number.starts preceding ('.' :: c :: rest) = false := by
    simp [Number.starts, Number.startsUnsigned_cons, hdigit]
  have hoperator : operator? ('.' :: c :: rest) = some (['.'], .dot) := by
    simp [operator?, operators, List.isPrefixOf, hpoint]
  change plain preceding ('.' :: c :: rest) = _
  simp [plain, hstarts, isNameStart, isLetter, atInclude, symbol_eq, hoperator]

/-- A name is read whole. -/
theorem scan_name {name : List Char} (h : IsName name) (preceding : Kind) :
    scan .plain preceding name =
      sound ((keyword? (String.ofList name)).getD .name) name.length := by
  obtain ⟨c, rest, rfl, hc, hrest⟩ := h
  have hother : isDigit c = false ∧ c ≠ '-' ∧ c ≠ '+' ∧ c ≠ '.' ∧
      isNamePart c = true :=
    @of_isNameStart (fun c => isDigit c = false ∧ c ≠ '-' ∧ c ≠ '+' ∧ c ≠ '.' ∧
      isNamePart c = true) (by decide) c hc
  obtain ⟨hdigit, hminus, hplus, hpoint, hpart⟩ := hother
  have hstarts : Number.starts preceding (c :: rest) = false := by
    simp [Number.starts, Number.startsUnsigned_cons, hminus, hplus, hpoint, hdigit]
  have hword : (c :: rest).takeWhile isNamePart = c :: rest :=
    List.takeWhile_eq_self_iff.mpr (List.forall_mem_cons.mpr ⟨hpart, hrest⟩)
  change plain preceding (c :: rest) = _
  simp only [plain, hstarts, Bool.false_eq_true, if_false, hc, if_true, word, hword]

end Scan

namespace Lexer

theorem stretch?_numeral {digits : List Char} (h : IsNumeral digits) (rest : List Char) :
    stretch? (digits ++ rest) = none := by
  obtain ⟨hne, hdigits⟩ := h
  obtain ⟨c, more, rfl⟩ := List.exists_cons_of_ne_nil hne
  exact stretch?_of_solid (of_isDigit (by decide) (hdigits c List.mem_cons_self)) _

theorem stretch?_name {name : List Char} (h : IsName name) : stretch? name = none := by
  obtain ⟨c, rest, rfl, hc, -⟩ := h
  exact stretch?_of_solid (@of_isNameStart IsSolid (by decide) c hc) rest

/-- A name starts a fraction if its first character is one of the letters that do. -/
theorem startsFraction_name {c : Char} (h : isNameStart c = true) :
    Number.startsFraction (some c) = decide (c ∈ Number.fractionLetters) :=
  @of_isNameStart
    (fun c => Number.startsFraction (some c) = decide (c ∈ Number.fractionLetters))
    (by decide) c h

/-- The integer, the point and the name are collected one behind the other. -/
theorem collect_member {digits name : List Char} (hdigits : IsNumeral digits) (hname : IsName name)
    (hfraction : Number.startsFraction name.head? = false) (limit : Nat) :
    (place ⟨0, digits ++ '.' :: name⟩ .plain .eof).collect (limit + 4) =
      [.bare .intNumber 0 digits,
       .bare .dot (byteCount digits) ['.'],
       .bare ((keyword? (String.ofList name)).getD .name) (byteCount digits + 1) name,
       .bare .eof (byteCount digits + 1 + byteCount name) []] := by
  have hfront : stretch? ('.' :: name) = none := stretch?_of_solid (by decide) name
  have hback : stretch? (name ++ []) = none := by
    rw [List.append_nil]
    exact stretch?_name hname
  have hinteger : scan .plain .eof (digits ++ '.' :: name) = .sound .intNumber digits.length := by
    rw [Scan.scan_numeral hdigits, Number.unsigned_of_not_startsFraction hdigits hfraction]
  have hpoint : scan .plain .intNumber (['.'] ++ name) = .sound .dot ['.'].length := by
    obtain ⟨c, rest, rfl, hc, -⟩ := hname
    exact Scan.scan_point hc .intNumber rest
  have hword : scan .plain .dot (name ++ []) =
      .sound ((keyword? (String.ofList name)).getD .name) name.length := by
    rw [List.append_nil]
    exact Scan.scan_name hname .dot
  calc (place ⟨0, digits ++ '.' :: name⟩ .plain .eof).collect (limit + 4)
    _ = .bare .intNumber 0 digits ::
          (place ⟨0 + byteCount digits, '.' :: name⟩ .plain .intNumber).collect (limit + 3) :=
      collect_bare (stretch?_numeral hdigits _) hfront hinteger (by decide) 0 (limit + 3)
    _ = .bare .intNumber 0 digits :: .bare .dot (byteCount digits) ['.'] ::
          (place ⟨byteCount digits + 1, name⟩ .plain .dot).collect (limit + 2) := by
      rw [Nat.zero_add]
      exact congrArg _ (collect_bare hfront (stretch?_name hname) hpoint (by decide) _ (limit + 2))
    _ = _ := by
      have hlast := collect_bare hback rfl hword (keyword?_getD_ne_eof _) (byteCount digits + 1)
        (limit + 1)
      rw [collect_end, List.append_nil] at hlast
      rw [hlast]

/-- The digits and the point are the front of the first token. -/
theorem collect_fraction {digits name : List Char} (hdigits : IsNumeral digits)
    (hfraction : Number.startsFraction name.head? = true) (limit : Nat) :
    ∃ token rest,
      (place ⟨0, digits ++ '.' :: name⟩ .plain .eof).collect (limit + 1) = token :: rest ∧
      token.kind = .floatNumber ∧ ∃ more, token.text.toList = digits ++ '.' :: more := by
  let lexer := place ⟨0, digits ++ '.' :: name⟩ .plain .eof
  have hplaced : lexer.Placed := place_placed _ _ _
  obtain ⟨hfloat, hsize⟩ := Number.unsigned_of_startsFraction hdigits hfraction
  have hscan : lexer.toScan = digits ++ '.' :: name := by
    rw [toScan, place_start, layout_of_none (stretch?_numeral hdigits _)]
  have hfound : lexer.found = .sound (Number.unsigned (digits ++ '.' :: name)).2
      (Number.unsigned (digits ++ '.' :: name)).1 := by
    rw [found, hscan]
    exact Scan.scan_numeral hdigits .eof _
  have hkind : lexer.current.kind = .floatNumber := by
    rw [hplaced.kind_eq, hfound]
    exact hfloat
  have htext : lexer.current.text.toList =
      (digits ++ '.' :: name).take (Number.unsigned (digits ++ '.' :: name)).1 := by
    rw [hplaced.text_eq, hfound, hscan]
    rfl
  obtain ⟨count, hcount⟩ := Nat.exists_eq_add_of_le hsize
  refine ⟨lexer.current, lexer.advance.collect limit, ?_, hkind, name.take count, ?_⟩
  · rw [collect]
    exact if_neg (by rw [hkind]; decide)
  · rw [htext, hcount, Nat.add_assoc, List.take_length_add_append, Nat.add_comm,
      List.take_succ_cons]

end Lexer

theorem tokenize_member (digits name : String) : tokenize (digits ++ "." ++ name) =
    (Lexer.place ⟨0, digits.toList ++ '.' :: name.toList⟩ .plain .eof).collect
      (digits.length + name.length + 2) := by
  have htext : (digits ++ "." ++ name).toList = digits.toList ++ '.' :: name.toList := by
    simp [String.toList_append]
  have hlength : (digits ++ "." ++ name).length + 1 = digits.length + name.length + 2 := by
    rw [← String.length_toList, htext, List.length_append, List.length_cons, String.length_toList,
      String.length_toList]
    omega
  rw [tokenize, hlength, Lexer.ofText, Cursor.ofText, htext]

/-- A member of an integer is read as the integer, the point and the name of the member, unless the
name starts with a letter that starts a fraction. Then the digits and the point are the front of a
floating-point number. -/
theorem members_of_integers (digits name : String) (hdigits : IsNumeral digits.toList)
    (hname : IsName name.toList) :
    ((∀ c ∈ name.toList.head?, c ∉ Number.fractionLetters) →
      tokenize (digits ++ "." ++ name) =
        [.bare .intNumber 0 digits.toList,
         .bare .dot digits.utf8ByteSize ['.'],
         .bare ((keyword? name).getD .name) (digits.utf8ByteSize + 1) name.toList,
         .bare .eof (digits.utf8ByteSize + 1 + name.utf8ByteSize) []]) ∧
    ((∃ c ∈ name.toList.head?, c ∈ Number.fractionLetters) →
      ∃ token rest, tokenize (digits ++ "." ++ name) = token :: rest ∧
        token.kind = .floatNumber ∧ ∃ more, token.text = digits ++ "." ++ more) := by
  obtain ⟨c, rest, hchars, hc, -⟩ := id hname
  have hhead : name.toList.head? = some c := by
    rw [hchars, List.head?_cons]
  have hstarts : Number.startsFraction name.toList.head? =
      decide (c ∈ Number.fractionLetters) := by
    rw [hhead]
    exact Lexer.startsFraction_name hc
  rw [tokenize_member]
  constructor
  · intro hletter
    have hpositive : 0 < digits.length ∧ 0 < name.length := by
      rw [← String.length_toList, ← String.length_toList, hchars]
      exact ⟨List.length_pos_of_ne_nil hdigits.1, Nat.succ_pos _⟩
    obtain ⟨limit, hlimit⟩ : ∃ limit, digits.length + name.length + 2 = limit + 4 :=
      Nat.exists_eq_add_of_le' (by omega)
    have hfraction := hstarts.trans (decide_eq_false (hletter c hhead))
    have hcollect := Lexer.collect_member hdigits hname hfraction limit
    rw [String.ofList_toList, ← utf8ByteSize_eq_byteCount,
      ← utf8ByteSize_eq_byteCount] at hcollect
    rw [hlimit, hcollect]
  · rintro ⟨d, hd, hletter⟩
    obtain rfl : c = d := Option.some.inj (hhead.symm.trans hd)
    have hfraction := hstarts.trans (decide_eq_true hletter)
    obtain ⟨token, rest, hcollect, hkind, more, htext⟩ :=
      Lexer.collect_fraction hdigits hfraction (digits.length + name.length + 1)
    refine ⟨token, rest, hcollect, hkind, String.ofList more, ?_⟩
    rw [← String.toList_inj, htext]
    simp [String.toList_append]

/-- The letters of a suffix may start a name behind the point. -/
theorem members_of_integers_length :
    tokenize "12.length" =
      [.bare .intNumber 0 ['1', '2'],
       .bare .dot 2 ['.'],
       .bare .name 3 ['l', 'e', 'n', 'g', 't', 'h'],
       .bare .eof 9 []] := by
  have hdigits : IsNumeral "12".toList := ⟨by decide, Integer.forall_mem_of_all (by decide)⟩
  have hname : IsName "length".toList :=
    ⟨'l', "ength".toList, by decide, by decide, Integer.forall_mem_of_all (by decide)⟩
  refine (members_of_integers "12" "length" hdigits hname).1 fun c hhead => ?_
  rw [← Option.some.inj hhead]
  decide

/-- The `f` of `foo` is taken for a suffix, and what is left is another name. -/
theorem tokenize_foo_of_one :
    (tokenize "1.foo").map (fun token => (token.kind, token.text)) =
      [(.floatNumber, "1.f"), (.name, "oo"), (.eof, "")] := by
  decide +kernel

end ScriptTree

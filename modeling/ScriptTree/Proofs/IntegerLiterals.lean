import Mathlib.Data.Int.ModEq
import ScriptTree.Proofs.Lexer.Spelling
import ScriptTree.Proofs.Lexer.Standing

/-!
The values of integer literals. A lexer and the decoder of literals recognize signs, marks,
separators and suffixes each in its own way. They agree: the decoder gives every integer of a text
the number that its digits make in its base, as a signed word, or reports that the number does not
fit into a word, or that a digit does not belong to the base. That can only be an octal one.
-/

namespace ScriptTree

open Text

namespace Integer

def Base.carry (base : Base) (value : Nat) (figures : List Nat) : Nat :=
  figures.foldl (fun total figure => figure + base.radix * total) value

theorem Base.radix_pos (base : Base) : 0 < base.radix := by
  cases base <;> decide

theorem Base.le_carry (base : Base) (value : Nat) (figures : List Nat) :
    value ≤ base.carry value figures := by
  induction figures generalizing value with
  | nil => exact Nat.le_refl value
  | cons figure rest ih =>
    have hstep : value ≤ base.radix * value := Nat.le_mul_of_pos_left value base.radix_pos
    have hrest := ih (figure + base.radix * value)
    change value ≤ base.carry (figure + base.radix * value) rest
    omega

/-- Figures read from the left make the number of which the last figure counts least. -/
theorem Base.ofDigits_reverse (base : Base) (figures : List Nat) :
    Nat.ofDigits base.radix figures.reverse = base.carry 0 figures := by
  rw [Nat.ofDigits_eq_foldr, List.foldr_reverse]
  rfl

theorem Spelling.magnitude_eq (spelling : Spelling) :
    spelling.magnitude = spelling.base.carry 0 (spelling.digits.map figureValue) :=
  spelling.base.ofDigits_reverse _

/-- A digit counts its value if it belongs to the base, and nothing otherwise. -/
theorem Base.digitValue?_eq {base : Base} {c : Char} (h : c ∈ base.digits) :
    digitValue? base.radix c =
      if figureValue c < base.radix then some (figureValue c) else none := by
  have hall (base : Base) : ∀ c ∈ base.digits, digitValue? base.radix c =
      if figureValue c < base.radix then some (figureValue c) else none := by
    refine forall_mem_of_all ?_
    cases base <;> decide
  exact hall base c h

theorem Base.digit_ne_separator {base : Base} {c : Char} (h : c ∈ base.digits) : c ≠ '\'' := by
  have hall (base : Base) : ∀ c ∈ base.digits, c ≠ '\'' := by
    refine forall_mem_of_all ?_
    cases base <;> decide
  exact hall base c h

theorem digits_step (radix value : Nat) (isEmpty : Bool) (c : Char) (rest : List Char) :
    digits radix value isEmpty (c :: rest) =
      if c == '\'' then digits radix value isEmpty rest
      else
        match digitValue? radix c with
        | none => .error .invalidDigit
        | some digit =>
          if value * radix + digit < 2 ^ 64 then
            digits radix (value * radix + digit) false rest
          else .error .overflow :=
  rfl

theorem digits_separator (radix value : Nat) (isEmpty : Bool) (rest : List Char) :
    digits radix value isEmpty ('\'' :: rest) = digits radix value isEmpty rest :=
  rfl

/-- One more digit: whether it belongs to the base is asked before whether the value still fits. -/
theorem digits_cons {base : Base} {c : Char} (h : c ∈ base.digits) (value : Nat) (isEmpty : Bool)
    (rest : List Char) : digits base.radix value isEmpty (c :: rest) =
      if figureValue c < base.radix then
        if figureValue c + base.radix * value < 2 ^ 64 then
          digits base.radix (figureValue c + base.radix * value) false rest
        else .error .overflow
      else .error .invalidDigit := by
  have hseparator : (c == '\'') = false := beq_eq_false_iff_ne.mpr (Base.digit_ne_separator h)
  have hsum : value * base.radix + figureValue c = figureValue c + base.radix * value := by
    rw [Nat.mul_comm, Nat.add_comm]
  rw [digits_step, hseparator, Base.digitValue?_eq h]
  by_cases hvalid : figureValue c < base.radix
  · simp only [if_pos hvalid, hsum, Bool.false_eq_true, if_false]
  · simp only [if_neg hvalid, Bool.false_eq_true, if_false]

structure Decodes (base : Base) (value : Nat) (isEmpty : Bool) (digits : List Char)
    (result : Except LiteralError Nat) : Prop where
  fits : (∀ c ∈ digits, figureValue c < base.radix) →
    base.carry value (digits.map figureValue) < 2 ^ 64 → (isEmpty = true → digits ≠ []) →
    result = .ok (base.carry value (digits.map figureValue))
  exceeds : (∀ c ∈ digits, figureValue c < base.radix) →
    2 ^ 64 ≤ base.carry value (digits.map figureValue) → result = .error .overflow
  strays : ¬ (∀ c ∈ digits, figureValue c < base.radix) →
    result = .error .invalidDigit ∨ result = .error .overflow

theorem decodes_nil {base : Base} {value : Nat} (hvalue : value < 2 ^ 64) (isEmpty : Bool) :
    Decodes base value isEmpty [] (digits base.radix value isEmpty []) := by
  refine ⟨fun _ _ hfull => ?_, fun _ hexceeds => ?_, fun hstrays => ?_⟩
  · cases isEmpty with
    | false => rfl
    | true => exact absurd rfl (hfull rfl)
  · exact absurd hvalue (Nat.not_lt.mpr hexceeds)
  · exact absurd nofun hstrays

/-- A digit is counted, and the rest is decoded behind it, unless the digit does not belong to the
base or the number gets too large. -/
theorem decodes_cons {base : Base} {c : Char} {rest more : List Char} {value : Nat}
    (hdigit : c ∈ base.digits) (isEmpty : Bool)
    (ih : figureValue c + base.radix * value < 2 ^ 64 →
      Decodes base (figureValue c + base.radix * value) false more
        (digits base.radix (figureValue c + base.radix * value) false rest)) :
    Decodes base value isEmpty (c :: more) (digits base.radix value isEmpty (c :: rest)) := by
  let next := figureValue c + base.radix * value
  have hcarry : base.carry value ((c :: more).map figureValue) =
      base.carry next (more.map figureValue) := rfl
  rw [digits_cons hdigit]
  by_cases hfigure : figureValue c < base.radix
  · have hvalid : (∀ d ∈ c :: more, figureValue d < base.radix) ↔
        ∀ d ∈ more, figureValue d < base.radix := by
      rw [List.forall_mem_cons]
      exact and_iff_right hfigure
    rw [if_pos hfigure]
    by_cases hnext : next < 2 ^ 64
    · have hmore := ih hnext
      rw [if_pos hnext]
      exact ⟨fun h hfits _ => hmore.fits (hvalid.mp h) hfits nofun,
        fun h hexceeds => hmore.exceeds (hvalid.mp h) hexceeds,
        fun hstrays => hmore.strays (mt hvalid.mpr hstrays)⟩
    · rw [if_neg hnext]
      refine ⟨fun _ hfits _ => ?_, fun _ _ => rfl, fun _ => Or.inr rfl⟩
      have hle := base.le_carry next (more.map figureValue)
      rw [hcarry] at hfits
      omega
  · rw [if_neg hfigure]
    exact ⟨fun h => absurd (h c List.mem_cons_self) hfigure,
      fun h => absurd (h c List.mem_cons_self) hfigure, fun _ => Or.inl rfl⟩

/-- By induction on the digits, from the value of those in front of them. -/
theorem decodes_digits {base : Base} {body : List Char}
    (hwritten : ∀ c ∈ body, c ∈ base.digits ∨ c = '\'') {value : Nat} (hvalue : value < 2 ^ 64)
    (isEmpty : Bool) :
    Decodes base value isEmpty (body.filter (· != '\''))
      (digits base.radix value isEmpty body) := by
  induction body generalizing value isEmpty with
  | nil => exact decodes_nil hvalue isEmpty
  | cons c rest ih =>
    obtain ⟨hc, hrest⟩ := List.forall_mem_cons.mp hwritten
    rcases hc with hdigit | rfl
    · have hfilter : (c :: rest).filter (· != '\'') = c :: rest.filter (· != '\'') :=
        List.filter_cons_of_pos (bne_iff_ne.mpr (Base.digit_ne_separator hdigit))
      rw [hfilter]
      exact decodes_cons hdigit isEmpty fun hnext => ih hrest hnext false
    · have hfilter : ('\'' :: rest).filter (· != '\'') = rest.filter (· != '\'') := rfl
      rw [digits_separator, hfilter]
      exact ih hrest hvalue isEmpty

/-- Letters behind other characters are dropped. -/
theorem dropSuffix_append {isSuffix : Char → Bool} {front suffix : List Char}
    (hsuffix : ∀ c ∈ suffix, isSuffix c = true)
    (hlast : ∀ c ∈ front.getLast?, isSuffix c = false) :
    dropSuffix (front ++ suffix) isSuffix = front := by
  have hstop : front.reverse.dropWhile isSuffix = front.reverse := by
    cases hfront : front.reverse with
    | nil => rfl
    | cons c rest =>
      have hc : front.getLast? = some c := by
        rw [← List.head?_reverse, hfront]
        rfl
      rw [List.dropWhile_cons_of_neg]
      rw [hlast c hc]
      exact Bool.false_ne_true
  rw [dropSuffix, List.reverse_append, List.dropWhile_append_of_pos, hstop, List.reverse_reverse]
  exact fun c hmem => hsuffix c (List.mem_reverse.mp hmem)

/-- A sign is split off from what does not start with another one. -/
theorem splitSign_append {sign rest : List Char} (hsign : sign ∈ [[], ['+'], ['-']])
    (hrest : ∀ c ∈ rest.head?, c ≠ '-' ∧ c ≠ '+') :
    splitSign (sign ++ rest) = (decide (sign = ['-']), rest) := by
  simp only [List.mem_cons, List.not_mem_nil, or_false] at hsign
  rcases hsign with rfl | rfl | rfl
  · rw [List.nil_append]
    unfold splitSign
    split
    · exact absurd rfl (hrest '-' rfl).1
    · exact absurd rfl (hrest '+' rfl).2
    · rfl
  · rfl
  · rfl

namespace Spelling

variable (spelling : Spelling)

theorem body_ne_nil : spelling.body ≠ [] := by
  obtain ⟨c, hmem, -⟩ := spelling.full
  exact List.ne_nil_of_mem hmem

theorem digits_ne_nil : spelling.digits ≠ [] := by
  obtain ⟨c, hmem, hc⟩ := spelling.full
  exact List.ne_nil_of_mem (List.mem_filter.mpr ⟨hmem, bne_iff_ne.mpr hc⟩)

/-- What follows the sign does not start with another one. -/
theorem head_not_sign :
    ∀ c ∈ (spelling.mark ++ (spelling.body ++ spelling.suffix)).head?, c ≠ '-' ∧ c ≠ '+' := by
  have hwritten := spelling.written
  have hmarks := spelling.marks
  obtain ⟨first, rest, hbody⟩ := List.exists_cons_of_ne_nil spelling.body_ne_nil
  rw [hbody] at hwritten ⊢
  cases hbase : spelling.base with
  | hexadecimal | binary =>
    rw [hbase] at hmarks
    simp only [Base.marks, List.mem_cons, List.not_mem_nil, or_false] at hmarks
    rcases hmarks with hmark | hmark
    all_goals
      rw [hmark]
      rintro c ⟨⟩
      decide
  | octal =>
    rw [hbase] at hmarks
    rw [List.mem_singleton.mp hmarks]
    rintro c ⟨⟩
    decide
  | decimal =>
    rw [hbase] at hmarks hwritten
    rw [List.mem_singleton.mp hmarks]
    rintro c ⟨⟩
    have hall : ∀ c ∈ '\'' :: Base.decimal.digits, c ≠ '-' ∧ c ≠ '+' :=
      forall_mem_of_all (by decide)
    exact hall first (List.mem_cons.mpr (hwritten first List.mem_cons_self).symm)

theorem splitSign_chars : splitSign spelling.chars =
    (decide (spelling.sign = ['-']), spelling.mark ++ (spelling.body ++ spelling.suffix)) :=
  splitSign_append spelling.signs spelling.head_not_sign

/-- What stands in front of the suffix does not end in one of its letters. -/
theorem dropSuffix_rest :
    dropSuffix (spelling.mark ++ (spelling.body ++ spelling.suffix)) isSuffix =
      spelling.mark ++ spelling.body := by
  rw [← List.append_assoc]
  apply dropSuffix_append
  · intro c hmem
    have hall : ∀ c ∈ ['u', 'U', 'l', 'L'], isSuffix c = true := forall_mem_of_all (by decide)
    exact hall c (spelling.letters c hmem)
  · intro c hlast
    have hmem : c ∈ spelling.body := by
      rw [List.getLast?_append_of_ne_nil _ spelling.body_ne_nil] at hlast
      exact List.mem_of_getLast? hlast
    have hall (base : Base) : ∀ c ∈ '\'' :: base.digits, isSuffix c = false := by
      refine forall_mem_of_all ?_
      cases base <;> decide
    exact hall spelling.base c (List.mem_cons.mpr (spelling.written c hmem).symm)

/-- The mark of a base is found again from the spelling alone. -/
theorem splitRadix_front :
    splitRadix (spelling.mark ++ spelling.body) = (spelling.base.radix, spelling.body) := by
  have hwritten := spelling.written
  have hmarks := spelling.marks
  have hleads := spelling.leads
  obtain ⟨first, rest, hbody⟩ := List.exists_cons_of_ne_nil spelling.body_ne_nil
  rw [hbody] at hwritten hleads ⊢
  cases hbase : spelling.base with
  | hexadecimal | binary =>
    rw [hbase] at hmarks
    simp only [Base.marks, List.mem_cons, List.not_mem_nil, or_false] at hmarks
    rcases hmarks with hmark | hmark
    all_goals
      rw [hmark]
      rfl
  | octal =>
    rw [hbase] at hmarks hwritten
    rw [List.mem_singleton.mp hmarks]
    have hfirst : first ∈ '\'' :: Base.octal.digits :=
      List.mem_cons.mpr (hwritten first List.mem_cons_self).symm
    simp only [Base.digits, figures, List.take_succ_cons, List.take_zero, List.mem_cons,
      List.not_mem_nil, or_false] at hfirst
    -- none of these digits is a letter that marks a base
    rcases hfirst with rfl | rfl | rfl | rfl | rfl | rfl | rfl | rfl | rfl | rfl | rfl <;> rfl
  | decimal =>
    rw [hbase] at hmarks
    rw [List.mem_singleton.mp hmarks, List.nil_append]
    by_cases hzero : first = '0'
    · subst hzero
      obtain ⟨-, rfl⟩ := List.cons.inj (hleads hbase rfl)
      rfl
    · unfold splitRadix
      split
      case h_6 => rfl
      all_goals
        next heq => exact absurd (List.cons.inj heq).1 hzero

/-- Only octal integers are written with digits that do not belong to the base. -/
theorem octal_of_not_isValid (h : ¬ spelling.IsValid) :
    spelling.base = .octal ∧ ('8' ∈ spelling.body ∨ '9' ∈ spelling.body) := by
  simp only [IsValid, not_forall, exists_prop] at h
  obtain ⟨c, hmem, hvalue⟩ := h
  obtain ⟨hbody, hc⟩ := List.mem_filter.mp hmem
  have hdigit : c ∈ spelling.base.digits :=
    (spelling.written c hbody).resolve_right (bne_iff_ne.mp hc)
  have hall (base : Base) : ∀ c ∈ base.digits, ¬ figureValue c < base.radix →
      base = .octal ∧ (c = '8' ∨ c = '9') := by
    refine forall_mem_of_all ?_
    cases base <;> decide
  obtain ⟨hbase, rfl | rfl⟩ := hall spelling.base c hdigit hvalue
  · exact ⟨hbase, Or.inl hbody⟩
  · exact ⟨hbase, Or.inr hbody⟩

/-- The decoder finds the sign, the base and the digits of an integer as it is written. -/
theorem decode_eq {text : String} (h : spelling.chars = text.toList) : decode text =
    (Integer.digits spelling.base.radix 0 true spelling.body).map fun value =>
      if spelling.sign = ['-'] then -(UInt64.ofNat value).toInt64
      else (UInt64.ofNat value).toInt64 := by
  rw [decode, ← h, splitSign_chars]
  dsimp only
  rw [dropSuffix_rest, splitRadix_front]
  cases Integer.digits spelling.base.radix 0 true spelling.body with
  | error error => rfl
  | ok value =>
    simp only [decide_eq_true_eq]
    rfl

end Spelling

theorem bmod_modEq (number : Int) : number.bmod (2 ^ 64) ≡ number [ZMOD 2 ^ 64] := by
  rw [Int.ModEq]
  exact_mod_cast Int.bmod_emod

/-- A word, read with a sign, and the number that it was made from agree modulo its size. -/
theorem toInt_word (value : Nat) : (UInt64.ofNat value).toInt64.toInt ≡ value [ZMOD 2 ^ 64] := by
  rw [UInt64.toInt64_ofNat', Int64.toInt_ofNat']
  exact bmod_modEq value

theorem toInt_neg_word (value : Nat) :
    (-(UInt64.ofNat value).toInt64).toInt ≡ -value [ZMOD 2 ^ 64] := by
  rw [Int64.toInt_neg]
  calc (-(UInt64.ofNat value).toInt64.toInt).bmod (2 ^ 64)
      ≡ -(UInt64.ofNat value).toInt64.toInt [ZMOD 2 ^ 64] := bmod_modEq _
    _ ≡ -value [ZMOD 2 ^ 64] := (toInt_word value).neg

/-- Every integer of a text is spelled in a base. If its digits belong to the base, it is decoded as
the number that they make, or found too large. Otherwise it is octal, and it is rejected. -/
theorem integers_decode (text : String) :
    ∀ token ∈ tokenize text, token.kind = .intNumber →
      (∃ spelling : Spelling, spelling.chars = token.text.toList) ∧
      ∀ spelling : Spelling, spelling.chars = token.text.toList →
        (spelling.IsValid → spelling.magnitude < 2 ^ 64 →
          ∃ word, decode token.text = .ok word ∧ word.toInt ≡ spelling.value [ZMOD 2 ^ 64]) ∧
        (spelling.IsValid → 2 ^ 64 ≤ spelling.magnitude →
          decode token.text = .error .overflow) ∧
        (¬ spelling.IsValid → spelling.base = .octal ∧ ('8' ∈ spelling.body ∨ '9' ∈ spelling.body) ∧
          (decode token.text = .error .invalidDigit ∨ decode token.text = .error .overflow)) := by
  intro token hmem hkind
  obtain ⟨lexer, hreached, rfl⟩ := exists_reached_of_mem_tokenize hmem
  refine ⟨?_, fun spelling hchars => ?_⟩
  · rw [hreached.placed.kind_eq] at hkind
    rw [hreached.placed.text_eq]
    exact scan_intNumber hkind
  have hzero : 0 < 2 ^ 64 := by decide
  have hdecodes := decodes_digits spelling.written hzero true
  rw [spelling.decode_eq hchars]
  refine ⟨fun hvalid hfits => ?_, fun hvalid hexceeds => ?_, fun hstrays => ?_⟩
  · have hok := hdecodes.fits hvalid (spelling.magnitude_eq ▸ hfits) fun _ => spelling.digits_ne_nil
    rw [hok]
    refine ⟨_, rfl, ?_⟩
    rw [Spelling.value, spelling.magnitude_eq]
    split
    · exact toInt_neg_word _
    · exact toInt_word _
  · rw [hdecodes.exceeds hvalid (spelling.magnitude_eq ▸ hexceeds)]
    rfl
  · obtain ⟨hbase, hdigit⟩ := spelling.octal_of_not_isValid hstrays
    refine ⟨hbase, hdigit, ?_⟩
    rcases hdecodes.strays hstrays with herror | herror
    · rw [herror]
      exact Or.inl rfl
    · rw [herror]
      exact Or.inr rfl

def Spelling.negatedByte : Spelling where
  sign := ['-']
  base := .hexadecimal
  mark := ['0', 'x']
  body := ['F', '\'', 'F']
  suffix := []
  signs := by decide
  marks := by decide
  written := forall_mem_of_all (by decide)
  full := ⟨'F', by decide, by decide⟩
  letters := nofun
  leads := nofun

/-- A negative number in hexadecimal digits with a separator. -/
theorem integers_decode_negatedByte :
    ∃ token ∈ tokenize "x = -0xF'F;", token.kind = .intNumber ∧ token.text = "-0xF'F" ∧
      ∃ word, decode token.text = .ok word ∧ word.toInt ≡ -255 [ZMOD 2 ^ 64] := by
  have htoken : ∃ token ∈ tokenize "x = -0xF'F;",
      token.kind = .intNumber ∧ token.text = "-0xF'F" := by decide +kernel
  obtain ⟨token, hmem, hkind, htext⟩ := htoken
  have hchars : Spelling.negatedByte.chars = token.text.toList := by
    rw [htext]
    decide
  obtain ⟨word, hword, hvalue⟩ :=
    ((integers_decode _ token hmem hkind).2 .negatedByte hchars).1 (by decide) (by decide)
  have hnegated : Spelling.negatedByte.value = -255 := by decide
  exact ⟨token, hmem, hkind, htext, word, hword, hnegated ▸ hvalue⟩

end Integer

end ScriptTree

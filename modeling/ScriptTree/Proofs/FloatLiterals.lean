import ScriptTree.Proofs.IntegerLiterals
import ScriptTree.Proofs.Lexer.Decimal
import ScriptTree.Proofs.Lexer.Standing

/-!
The values of floating-point literals. The decoder drops the suffix letters `f` and `l` and the
separators, and reads what is left as a decimal: digits with at most one point, at least one digit,
and perhaps an exponent. So it gives every floating-point number of a text a value, unless the
number has the mark of another base or the suffix letter `u`. Such a number is rejected.
-/

namespace ScriptTree

open Text

namespace FloatLiteral

open Integer (splitSign dropSuffix)

def IsPower (chars : List Char) : Prop :=
  ∃ mark sign digits, chars = mark :: (sign ++ digits) ∧ mark ∈ ['e', 'E'] ∧
    sign ∈ [[], ['+'], ['-']] ∧ (∀ c ∈ digits, isDigit c = true) ∧ digits ≠ []

structure Decimal (whole fraction exponent : List Char) : Prop where
  digits : ∀ c ∈ whole, isDigit c = true
  point : fraction = [] ∨ ∃ digits, fraction = '.' :: digits ∧ ∀ c ∈ digits, isDigit c = true
  power : exponent = [] ∨ IsPower exponent
  full : ∃ c ∈ whole ++ fraction, isDigit c = true

theorem ne_of_isDigit {c d : Char} (hc : isDigit c = true) (hd : isDigit d = false) : c ≠ d := by
  rintro rfl
  rw [hc] at hd
  cases hd

/-- What does not fit is not among the characters in front that do. -/
theorem takeWhile_digits {digits rest : List Char} (hdigits : ∀ c ∈ digits, isDigit c = true)
    (hrest : ∀ c ∈ rest.head?, isDigit c = false) :
    (digits ++ rest).takeWhile isDigit = digits := by
  rw [List.takeWhile_append_of_pos hdigits]
  cases rest with
  | nil => rw [List.takeWhile_nil, List.append_nil]
  | cons c more =>
    rw [List.takeWhile_cons_of_neg (by simp [hrest c rfl]), List.append_nil]

/-- Characters are split behind the digits in front. -/
theorem exists_digits (chars : List Char) :
    ∃ digits rest, chars = digits ++ rest ∧ (∀ c ∈ digits, isDigit c = true) ∧
      ∀ c ∈ rest.head?, isDigit c = false := by
  refine ⟨chars.takeWhile isDigit, chars.dropWhile isDigit,
    List.takeWhile_append_dropWhile.symm, List.all_eq_true.mp List.all_takeWhile, fun c hhead => ?_⟩
  obtain ⟨rest, hrest⟩ := List.head?_eq_some_iff.mp hhead
  have hne : chars.dropWhile isDigit ≠ [] := by
    rw [hrest]
    exact List.cons_ne_nil _ _
  have hhead := List.head_dropWhile_not isDigit hne
  simpa [hrest] using hhead

theorem exists_sign (chars : List Char) :
    ∃ sign ∈ [[], ['+'], ['-']], chars = sign ++ (splitSign chars).2 := by
  unfold splitSign
  split
  · exact ⟨['-'], by decide, rfl⟩
  · exact ⟨['+'], by decide, rfl⟩
  · exact ⟨[], by decide, rfl⟩

theorem eq_of_mem_sign {sign : List Char} (h : sign ∈ [[], ['+'], ['-']]) :
    ∀ c ∈ sign, c = '+' ∨ c = '-' := by
  intro c hmem
  simp only [List.mem_cons, List.not_mem_nil, or_false] at h
  rcases h with rfl | rfl | rfl
  · cases hmem
  · exact Or.inl (List.mem_singleton.mp hmem)
  · exact Or.inr (List.mem_singleton.mp hmem)

/-- Digits do not start with a sign. -/
theorem splitSign_digits {sign digits : List Char} (hsign : sign ∈ [[], ['+'], ['-']])
    (hdigits : ∀ c ∈ digits, isDigit c = true) : (splitSign (sign ++ digits)).2 = digits := by
  rw [Integer.splitSign_append hsign]
  intro c hhead
  have hc : isDigit c = true := hdigits c (List.mem_of_mem_head? hhead)
  exact ⟨ne_of_isDigit hc rfl, ne_of_isDigit hc rfl⟩

/-- Where an exponent may stand, nothing may stand as well. -/
theorem exponent?_isSome_iff {chars : List Char} :
    (exponent? chars).isSome = true ↔ chars = [] ∨ IsPower chars := by
  cases chars with
  | nil => exact iff_of_true rfl (Or.inl rfl)
  | cons mark rest =>
    have hpower : (exponent? (mark :: rest)).isSome = true ↔
        mark ∈ ['e', 'E'] ∧ (splitSign rest).2 ≠ [] ∧
          ∀ c ∈ (splitSign rest).2, isDigit c = true := by
      simp only [exponent?]
      split <;> simp_all
    rw [hpower, or_iff_right (List.cons_ne_nil _ _)]
    constructor
    · rintro ⟨hmark, hne, hdigits⟩
      obtain ⟨sign, hsign, hrest⟩ := exists_sign rest
      exact ⟨mark, sign, (splitSign rest).2, by rw [← hrest], hmark, hsign, hdigits, hne⟩
    · rintro ⟨letter, sign, digits, hchars, hmark, hsign, hdigits, hne⟩
      obtain ⟨rfl, rfl⟩ := List.cons.inj hchars
      rw [splitSign_digits hsign hdigits]
      exact ⟨hmark, hne, hdigits⟩

/-- There is a value if there are digits and the exponent has one. -/
theorem isSome_guard_bind {digits : List Char} {exponent : Option Int} {value : Int → Binary64} :
    (do
      guard (!digits.isEmpty)
      let exponent ← exponent
      pure (value exponent) : Option Binary64).isSome = true ↔
      digits ≠ [] ∧ exponent.isSome = true := by
  cases digits with
  | nil => exact iff_of_false Bool.false_ne_true fun h => h.1 rfl
  | cons c rest =>
    cases exponent with
    | none => exact iff_of_false Bool.false_ne_true fun h => Bool.false_ne_true h.2
    | some power => exact iff_of_true rfl ⟨List.cons_ne_nil _ _, rfl⟩

/-- Without a point, the digits in front are followed by the exponent. -/
theorem decimal?_isSome {negative : Bool} {whole rest : List Char}
    (hwhole : ∀ c ∈ whole, isDigit c = true) (hrest : ∀ c ∈ rest.head?, isDigit c = false)
    (hpoint : rest.head? ≠ some '.') :
    (decimal? negative (whole ++ rest)).isSome = true ↔
      whole ≠ [] ∧ (exponent? rest).isSome = true := by
  have hhead : (rest.head? == some '.') = false := beq_eq_false_iff_ne.mpr hpoint
  simp only [decimal?, takeWhile_digits hwhole hrest, List.drop_left, hhead, Bool.false_eq_true,
    if_false, List.append_nil, List.length_nil, List.drop_zero]
  exact isSome_guard_bind

/-- A point stands between digits, and the exponent follows those behind it. -/
theorem decimal?_point_isSome {negative : Bool} {whole digits rest : List Char}
    (hwhole : ∀ c ∈ whole, isDigit c = true) (hdigits : ∀ c ∈ digits, isDigit c = true)
    (hrest : ∀ c ∈ rest.head?, isDigit c = false) :
    (decimal? negative (whole ++ '.' :: (digits ++ rest))).isSome = true ↔
      whole ++ digits ≠ [] ∧ (exponent? rest).isSome = true := by
  have hstop : ∀ c ∈ ('.' :: (digits ++ rest)).head?, isDigit c = false := by
    rintro c ⟨⟩
    rfl
  simp only [decimal?, takeWhile_digits hwhole hstop, List.drop_left, List.head?_cons,
    beq_self_eq_true, if_true, List.drop_one, List.tail_cons, takeWhile_digits hdigits hrest]
  exact isSome_guard_bind

/-- A digit around the point is one in front of it or behind it. -/
theorem exists_digit_around {whole digits : List Char} :
    (∃ c ∈ whole ++ '.' :: digits, isDigit c = true) ↔ ∃ c ∈ whole ++ digits, isDigit c = true := by
  simp only [List.mem_append, List.mem_cons, or_and_right, exists_or, exists_eq_left]
  rw [or_iff_right (show ¬ isDigit '.' = true by decide)]

theorem exists_digit_iff {digits : List Char} (h : ∀ c ∈ digits, isDigit c = true) :
    (∃ c ∈ digits, isDigit c = true) ↔ digits ≠ [] := by
  constructor
  · rintro ⟨c, hmem, -⟩
    exact List.ne_nil_of_mem hmem
  · intro hne
    obtain ⟨c, hmem⟩ := List.exists_mem_of_ne_nil _ hne
    exact ⟨c, hmem, h c hmem⟩

/-- An exponent does not start with a digit or a point. -/
theorem head?_of_power {exponent : List Char} (h : exponent = [] ∨ IsPower exponent) :
    ∀ c ∈ exponent.head?, isDigit c = false ∧ c ≠ '.' := by
  rcases h with rfl | ⟨mark, sign, digits, rfl, hmark, -⟩
  · nofun
  · rintro c ⟨⟩
    have hall : ∀ c ∈ ['e', 'E'], isDigit c = false ∧ c ≠ '.' :=
      Integer.forall_mem_of_all (by decide)
    exact hall mark hmark

/-- Exactly the decimals have a value. -/
theorem decimal?_isSome_iff {negative : Bool} {chars : List Char} :
    (decimal? negative chars).isSome = true ↔
      ∃ whole fraction exponent, chars = whole ++ (fraction ++ exponent) ∧
        Decimal whole fraction exponent := by
  have hdigit {whole digits : List Char} (hwhole : ∀ c ∈ whole, isDigit c = true)
      (hdigits : ∀ c ∈ digits, isDigit c = true) :
      whole ++ digits ≠ [] ↔ ∃ c ∈ whole ++ digits, isDigit c = true :=
    (exists_digit_iff fun c hmem => (List.mem_append.mp hmem).elim (hwhole c) (hdigits c)).symm
  have hnone : ∀ c ∈ ([] : List Char), isDigit c = true :=
    fun _ hmem => absurd hmem List.not_mem_nil
  constructor
  · intro h
    obtain ⟨whole, rest, rfl, hwhole, hrest⟩ := exists_digits chars
    by_cases hpoint : rest.head? = some '.'
    · obtain ⟨more, rfl⟩ := List.head?_eq_some_iff.mp hpoint
      obtain ⟨digits, exponent, rfl, hdigits, hexponent⟩ := exists_digits more
      obtain ⟨hne, hpower⟩ := (decimal?_point_isSome hwhole hdigits hexponent).mp h
      exact ⟨whole, '.' :: digits, exponent, rfl, hwhole, Or.inr ⟨digits, rfl, hdigits⟩,
        exponent?_isSome_iff.mp hpower, exists_digit_around.mpr ((hdigit hwhole hdigits).mp hne)⟩
    · obtain ⟨hne, hpower⟩ := (decimal?_isSome hwhole hrest hpoint).mp h
      rw [← List.append_nil whole] at hne
      exact ⟨whole, [], rest, rfl, hwhole, Or.inl rfl, exponent?_isSome_iff.mp hpower,
        (hdigit hwhole hnone).mp hne⟩
  · rintro ⟨whole, fraction, exponent, rfl, h⟩
    have hhead := head?_of_power h.power
    have hpower := exponent?_isSome_iff.mpr h.power
    have hfull := h.full
    rcases h.point with rfl | ⟨digits, rfl, hdigits⟩
    · have hne := (hdigit h.digits hnone).mpr hfull
      rw [List.append_nil] at hne
      exact (decimal?_isSome h.digits (fun c hc => (hhead c hc).1)
        fun hpoint => (hhead '.' hpoint).2 rfl).mpr ⟨hne, hpower⟩
    · have hne := (hdigit h.digits hdigits).mpr (exists_digit_around.mp hfull)
      exact (decimal?_point_isSome h.digits hdigits fun c hc => (hhead c hc).1).mpr ⟨hne, hpower⟩

def words : List (List Char) :=
  [['i', 'n', 'f'], ['i', 'n', 'f', 'i', 'n', 'i', 't', 'y'], ['n', 'a', 'n']]

/-- Behind its sign, a number is one of the words or an unsigned decimal. -/
theorem number?_isSome_iff {chars : List Char} :
    (number? chars).isSome = true ↔ (splitSign chars).2.map Char.toLower ∈ words ∨
      (decimal? (splitSign chars).1 (splitSign chars).2).isSome = true := by
  simp only [number?, words, List.mem_cons, List.not_mem_nil, or_false, Bool.or_eq_true,
    beq_iff_eq]
  split
  · next h => exact iff_of_true rfl (Or.inl (by simpa [or_assoc] using Or.inl h))
  split
  · next h => exact iff_of_true rfl (Or.inl (Or.inr (Or.inr h)))
  · next hinfinity hnan =>
    rw [or_iff_right]
    rintro (h | h | h)
    · exact hinfinity (Or.inl h)
    · exact hinfinity (Or.inr h)
    · exact hnan h

namespace Decimal

variable {whole fraction exponent : List Char} (h : Decimal whole fraction exponent)

include h

/-- A decimal is written with digits, a point, and the letter and the sign of an exponent. -/
theorem written : ∀ c ∈ whole ++ (fraction ++ exponent),
    isDigit c = true ∨ c ∈ ['.', 'e', 'E', '+', '-'] := by
  intro c hmem
  rcases List.mem_append.mp hmem with hwhole | hrest
  · exact Or.inl (h.digits c hwhole)
  rcases List.mem_append.mp hrest with hfraction | hexponent
  · rcases h.point with rfl | ⟨digits, rfl, hdigits⟩
    · cases hfraction
    · rcases List.mem_cons.mp hfraction with rfl | hmem
      · exact Or.inr (by decide)
      · exact Or.inl (hdigits c hmem)
  · rcases h.power with rfl | ⟨mark, sign, digits, rfl, hmark, hsign, hdigits, -⟩
    · cases hexponent
    · rcases List.mem_cons.mp hexponent with rfl | hmem
      · have hall : ∀ c ∈ ['e', 'E'], c ∈ ['.', 'e', 'E', '+', '-'] :=
          Integer.forall_mem_of_all (by decide)
        exact Or.inr (hall c hmark)
      · rcases List.mem_append.mp hmem with hmem | hmem
        · rcases eq_of_mem_sign hsign c hmem with rfl | rfl
          · exact Or.inr (by decide)
          · exact Or.inr (by decide)
        · exact Or.inl (hdigits c hmem)

/-- A decimal starts with a digit or with a point. -/
theorem head? : ∀ c ∈ (whole ++ (fraction ++ exponent)).head?, isDigit c = true ∨ c = '.' := by
  intro c hhead
  obtain ⟨d, hmem, -⟩ := h.full
  cases whole with
  | cons e rest =>
    obtain rfl := Option.some.inj hhead
    exact Or.inl (h.digits e List.mem_cons_self)
  | nil =>
    rcases h.point with rfl | ⟨digits, rfl, -⟩
    · cases hmem
    · exact Or.inr (Option.some.inj hhead).symm

/-- A decimal has a value, whatever its sign. -/
theorem number?_isSome {sign : List Char} (hsign : sign ∈ [[], ['+'], ['-']]) :
    (number? (sign ++ (whole ++ (fraction ++ exponent)))).isSome = true := by
  have hhead := h.head?
  have hsplit : splitSign (sign ++ (whole ++ (fraction ++ exponent))) =
      (decide (sign = ['-']), whole ++ (fraction ++ exponent)) := by
    refine Integer.splitSign_append hsign fun c hc => ?_
    rcases hhead c hc with hdigit | rfl
    · exact ⟨ne_of_isDigit hdigit rfl, ne_of_isDigit hdigit rfl⟩
    · decide
  rw [number?_isSome_iff, hsplit]
  exact Or.inr (decimal?_isSome_iff.mpr ⟨whole, fraction, exponent, rfl, h⟩)

/-- Behind a point at the end a zero makes the same decimal. -/
theorem append_zero (hlast : (whole ++ (fraction ++ exponent)).getLast? = some '.') :
    exponent = [] ∧ Decimal whole (fraction ++ ['0']) [] := by
  have hdigit {digits : List Char} (hdigits : ∀ c ∈ digits, isDigit c = true) :
      digits.getLast? ≠ some '.' := by
    intro hpoint
    exact ne_of_isDigit (hdigits '.' (List.mem_of_getLast? hpoint)) rfl rfl
  rcases h.power with rfl | ⟨mark, sign, digits, rfl, -, -, hdigits, hne⟩
  · refine ⟨rfl, h.digits, ?_, Or.inl rfl, ?_⟩
    · rcases h.point with rfl | ⟨digits, rfl, hdigits⟩
      · rw [List.append_nil, List.append_nil] at hlast
        exact absurd hlast (hdigit h.digits)
      · refine Or.inr ⟨digits ++ ['0'], rfl, fun c hmem => ?_⟩
        rcases List.mem_append.mp hmem with hmem | hmem
        · exact hdigits c hmem
        · rw [List.mem_singleton.mp hmem]
          rfl
    · obtain ⟨c, hmem, hc⟩ := h.full
      exact ⟨c, by rw [← List.append_assoc]; exact List.mem_append_left _ hmem, hc⟩
  · -- an exponent ends in a digit
    have hsplit : whole ++ (fraction ++ mark :: (sign ++ digits)) =
        (whole ++ (fraction ++ mark :: sign)) ++ digits := by simp
    rw [hsplit, List.getLast?_append_of_ne_nil _ hne] at hlast
    exact absurd hlast (hdigit hdigits)

end Decimal

def clean (chars : List Char) : List Char :=
  chars.filter (· != '\'')

theorem clean_append (front back : List Char) : clean (front ++ back) = clean front ++ clean back :=
  List.filter_append front back

theorem IsRun.clean {digits : List Char} (h : IsRun digits) :
    ∀ c ∈ clean digits, isDigit c = true := by
  intro c hmem
  obtain ⟨hdigit, hc⟩ := List.mem_filter.mp hmem
  exact (h c hdigit).resolve_right (bne_iff_ne.mp hc)

theorem clean_sign {sign : List Char} (h : sign ∈ [[], ['+'], ['-']]) : clean sign = sign := by
  have hall : ∀ sign ∈ [[], ['+'], ['-']], clean sign = sign := by decide
  exact hall sign h

theorem mem_clean {c : Char} {chars : List Char} (hmem : c ∈ chars) (hc : isDigit c = true) :
    c ∈ clean chars :=
  List.mem_filter.mpr ⟨hmem, bne_iff_ne.mpr (ne_of_isDigit hc rfl)⟩

/-- Without its separators, what is written in decimals is a decimal. -/
theorem Spelling.decimal (spelling : Spelling) :
    Decimal (clean spelling.whole) (clean spelling.fraction) (clean spelling.exponent) where
  digits := spelling.digits.clean
  point := by
    rcases spelling.point with hnone | ⟨digits, hfraction, hrun⟩
    · rw [hnone]
      exact Or.inl rfl
    · rw [hfraction]
      exact Or.inr ⟨clean digits, rfl, hrun.clean⟩
  power := by
    rcases spelling.power with hnone | ⟨mark, sign, digits, hexponent, hmark, hsign, hrun, hdigit⟩
    · rw [hnone]
      exact Or.inl rfl
    · have hletter : clean [mark] = [mark] := by
        have hall : ∀ mark ∈ ['e', 'E'], clean [mark] = [mark] :=
          Integer.forall_mem_of_all (by decide)
        exact hall mark hmark
      obtain ⟨c, hmem, hc⟩ := hdigit
      refine Or.inr ⟨mark, sign, clean digits, ?_, hmark, hsign, hrun.clean,
        List.ne_nil_of_mem (mem_clean hmem hc)⟩
      rw [hexponent, ← List.singleton_append, clean_append, clean_append, hletter,
        clean_sign hsign, List.singleton_append]
  full := by
    obtain ⟨c, hmem, hc⟩ := spelling.full
    rw [← clean_append]
    exact ⟨c, mem_clean hmem hc, hc⟩

theorem Spelling.clean_eq (spelling : Spelling) :
    clean (spelling.sign ++ spelling.body) = spelling.sign ++ (clean spelling.whole ++
      (clean spelling.fraction ++ clean spelling.exponent)) := by
  rw [Spelling.body, clean_append, clean_append, clean_append, clean_sign spelling.signs]

theorem mem_of_isSuffix {c : Char} (h : isSuffix c = true) : c ∈ ['f', 'F', 'l', 'L'] := by
  unfold isSuffix at h
  split at h
  case h_5 => cases h
  all_goals decide

/-- The decoder finds no suffix letter in front of the suffix. -/
theorem Spelling.dropSuffix_chars (spelling : Spelling)
    (hsuffix : ∀ c ∈ spelling.suffix, isSuffix c = true) :
    dropSuffix spelling.chars isSuffix = spelling.sign ++ spelling.body := by
  rw [Spelling.chars, ← List.append_assoc]
  refine Integer.dropSuffix_append hsuffix fun c hlast => Bool.eq_false_iff.mpr fun hc => ?_
  have hall : ∀ c ∈ ['f', 'F', 'l', 'L'], c ≠ '\'' ∧ c ≠ '+' ∧ c ≠ '-' ∧ isDigit c = false ∧
      c ∉ ['.', 'e', 'E', '+', '-'] := Integer.forall_mem_of_all (by decide)
  obtain ⟨hquote, hplus, hminus, hdigit, hother⟩ := hall c (mem_of_isSuffix hc)
  have hmem : c ∈ clean (spelling.sign ++ spelling.body) :=
    List.mem_filter.mpr ⟨List.mem_of_getLast? hlast, bne_iff_ne.mpr hquote⟩
  rw [spelling.clean_eq] at hmem
  rcases List.mem_append.mp hmem with hsign | hbody
  · exact (eq_of_mem_sign spelling.signs c hsign).elim hplus hminus
  · rcases spelling.decimal.written c hbody with h | h
    · rw [hdigit] at h
      cases h
    · exact hother h

def complete (chars : List Char) : List Char :=
  if chars.getLast? == some '.' then chars ++ ['0'] else chars

/-- Decoding reads what is left without the suffix and the separators. -/
theorem decode_eq {text : String} {chars : List Char}
    (hclean : clean (dropSuffix text.toList isSuffix) = chars) (hne : chars ≠ []) :
    decode text = match number? (complete chars) with
      | some value => .ok value
      | none => .error .invalidDigit := by
  subst hclean
  have hempty : ¬ (clean (dropSuffix text.toList isSuffix)).isEmpty = true :=
    mt List.isEmpty_iff.mp hne
  exact if_neg hempty

/-- A number that is written in decimals has a value, if all of its suffix letters are known. -/
theorem Spelling.exists_decode (spelling : Spelling)
    (hsuffix : ∀ c ∈ spelling.suffix, isSuffix c = true) {text : String}
    (h : spelling.chars = text.toList) : ∃ value, decode text = .ok value := by
  let body := clean spelling.whole ++ (clean spelling.fraction ++ clean spelling.exponent)
  have hdecimal := spelling.decimal
  have hclean : clean (dropSuffix text.toList isSuffix) = spelling.sign ++ body := by
    rw [← h, spelling.dropSuffix_chars hsuffix]
    exact spelling.clean_eq
  have hbody : body ≠ [] := by
    obtain ⟨c, hmem, -⟩ := hdecimal.full
    dsimp only [body]
    rw [← List.append_assoc]
    exact List.ne_nil_of_mem (List.mem_append_left _ hmem)
  have hvalue : (number? (complete (spelling.sign ++ body))).isSome = true := by
    unfold complete
    split
    · next hpoint =>
      rw [beq_iff_eq, List.getLast?_append_of_ne_nil _ hbody] at hpoint
      obtain ⟨hnone, hzero⟩ := hdecimal.append_zero hpoint
      have hchars : spelling.sign ++ body ++ ['0'] = spelling.sign ++
          (clean spelling.whole ++ ((clean spelling.fraction ++ ['0']) ++ [])) := by
        simp only [body, hnone, List.append_nil, List.append_assoc]
      rw [hchars]
      exact hzero.number?_isSome spelling.signs
    · exact hdecimal.number?_isSome spelling.signs
  obtain ⟨value, hvalue⟩ := Option.isSome_iff_exists.mp hvalue
  rw [decode_eq hclean (List.append_ne_nil_of_right_ne_nil _ hbody), hvalue]
  exact ⟨value, rfl⟩

/-- Letters of floating-point numbers that the decoder does not know: the marks of other bases and
the suffix letter `u`. -/
def strangers : List Char :=
  baseMarks ++ ['u', 'U']

theorem mem_splitSign {c : Char} {chars : List Char} (hmem : c ∈ chars) (hplus : c ≠ '+')
    (hminus : c ≠ '-') : c ∈ (splitSign chars).2 := by
  obtain ⟨sign, hsign, hchars⟩ := exists_sign chars
  rw [hchars] at hmem
  exact (List.mem_append.mp hmem).resolve_left fun hc =>
    (eq_of_mem_sign hsign c hc).elim hplus hminus

/-- What has one of these letters is neither a decimal nor one of the words. -/
theorem number?_of_stranger {c : Char} (hc : c ∈ strangers) {chars : List Char}
    (hmem : c ∈ chars) : number? chars = none := by
  have hall : ∀ c ∈ strangers, c ≠ '+' ∧ c ≠ '-' ∧ isDigit c = false ∧
      c ∉ ['.', 'e', 'E', '+', '-'] ∧ ∀ word ∈ words, c.toLower ∉ word :=
    Integer.forall_mem_of_all (by decide)
  obtain ⟨hplus, hminus, hdigit, hother, hwords⟩ := hall c hc
  have hunsigned := mem_splitSign hmem hplus hminus
  rw [← Option.not_isSome_iff_eq_none, number?_isSome_iff]
  rintro (hword | hdecimal)
  · exact hwords _ hword (List.mem_map_of_mem hunsigned)
  · obtain ⟨whole, fraction, exponent, hchars, hdecimal⟩ := decimal?_isSome_iff.mp hdecimal
    rw [hchars] at hunsigned
    rcases hdecimal.written c hunsigned with h | h
    · rw [hdigit] at h
      cases h
    · exact hother h

/-- The decoder rejects a number with one of these letters. -/
theorem decode_of_stranger {c : Char} (hc : c ∈ strangers) {text : String}
    (hmem : c ∈ text.toList) : decode text = .error .invalidDigit := by
  have hall : ∀ c ∈ strangers, c ≠ '\'' ∧ isSuffix c = false :=
    Integer.forall_mem_of_all (by decide)
  obtain ⟨hquote, hletter⟩ := hall c hc
  have hclean : c ∈ clean (dropSuffix text.toList isSuffix) := by
    refine List.mem_filter.mpr ⟨?_, bne_iff_ne.mpr hquote⟩
    rw [dropSuffix, List.mem_reverse]
    rw [← List.mem_reverse,
      ← @List.takeWhile_append_dropWhile _ isSuffix text.toList.reverse] at hmem
    refine (List.mem_append.mp hmem).resolve_left fun hsuffix => ?_
    rw [List.all_eq_true.mp List.all_takeWhile c hsuffix] at hletter
    cases hletter
  have hcomplete : c ∈ complete (clean (dropSuffix text.toList isSuffix)) := by
    unfold complete
    split
    · exact List.mem_append_left _ hclean
    · exact hclean
  rw [decode_eq rfl (List.ne_nil_of_mem hclean), number?_of_stranger hc hcomplete]

/-- A floating-point number of a text has a value, unless it has the mark of another base or the
suffix letter `u`. Then it is rejected. -/
theorem floats_decode (text : String) :
    ∀ token ∈ tokenize text, token.kind = .floatNumber →
      ((∃ value, decode token.text = .ok value) ↔ ∀ c ∈ token.text.toList, c ∉ strangers) ∧
      ((∃ c ∈ token.text.toList, c ∈ strangers) → decode token.text = .error .invalidDigit) := by
  intro token hmem hkind
  obtain ⟨lexer, hreached, rfl⟩ := exists_reached_of_mem_tokenize hmem
  rw [hreached.placed.kind_eq] at hkind
  have hscan := scan_floatNumber hkind
  rw [← Lexer.found, ← hreached.placed.text_eq] at hscan
  refine ⟨⟨?_, fun hknown => ?_⟩, fun ⟨c, hchar, hc⟩ => decode_of_stranger hc hchar⟩
  · rintro ⟨value, hvalue⟩ c hchar hc
    cases hvalue.symm.trans (decode_of_stranger hc hchar)
  · rcases hscan with ⟨spelling, hchars⟩ | ⟨c, hmark, hchar⟩
    · refine spelling.exists_decode (fun c hsuffix => ?_) hchars
      have hchar : c ∈ lexer.current.text.toList := by
        rw [← hchars]
        exact List.mem_append_right _ (List.mem_append_right _ hsuffix)
      have hall : ∀ c ∈ ['u', 'U', 'l', 'L', 'f', 'F'], c ∉ strangers → isSuffix c = true :=
        Integer.forall_mem_of_all (by decide)
      exact hall c (spelling.letters c hsuffix) (hknown c hchar)
    · exact absurd (List.mem_append_left _ hmark) (hknown c hchar)

/-- A number with a sign, separators, an exponent and two suffix letters. -/
theorem floats_decode_separated :
    ∃ token ∈ tokenize "x = -1'0.5e+0'3fL;", token.kind = .floatNumber ∧
      token.text = "-1'0.5e+0'3fL" ∧ ∃ value, decode token.text = .ok value := by
  have htoken : ∃ token ∈ tokenize "x = -1'0.5e+0'3fL;", token.kind = .floatNumber ∧
      token.text = "-1'0.5e+0'3fL" := by decide +kernel
  obtain ⟨token, hmem, hkind, htext⟩ := htoken
  refine ⟨token, hmem, hkind, htext, (floats_decode _ token hmem hkind).1.mpr ?_⟩
  rw [htext]
  exact Integer.forall_mem_of_all (by decide)

/-- The suffix letter `u` and the mark of the binary base are accepted, but not decoded. -/
theorem floats_undecoded :
    (∃ token ∈ tokenize "const a=1.5u;", token.kind = .floatNumber ∧ token.text = "1.5u" ∧
      decode token.text = .error .invalidDigit) ∧
    ∃ token ∈ tokenize "const a=0b1f;", token.kind = .floatNumber ∧ token.text = "0b1f" ∧
      decode token.text = .error .invalidDigit := by
  decide +kernel

end FloatLiteral

end ScriptTree

import ScriptTree.Proofs.Lexer.Quoted
import ScriptTree.Proofs.Lexer.Spelling

/-!
Line ends. A line break, and a carriage return as well, ends every token but a quoted literal: in
front of it the same is read as at the end of the text. So it makes no difference to such a token
which of the two ends its line.
-/

namespace ScriptTree

namespace Text

inductive AtLineEnd : List Char → Prop where
  | ended : AtLineEnd []
  | newline (rest : List Char) : AtLineEnd ('\n' :: rest)
  | carriage (rest : List Char) : AtLineEnd ('\r' :: rest)

variable {later : List Char}

/-- The next character is one of a class without line ends in the same cases as at the end of the
text. -/
theorem AtLineEnd.any_head? (h : AtLineEnd later) {p : Char → Bool}
    (hp : p '\n' = false ∧ p '\r' = false) (chars : List Char) :
    (chars ++ later).head?.any p = chars.head?.any p := by
  cases chars with
  | cons c rest => rfl
  | nil =>
    cases h with
    | ended => rfl
    | newline rest => exact hp.1
    | carriage rest => exact hp.2

theorem AtLineEnd.takeWhile_append (h : AtLineEnd later) {p : Char → Bool}
    (hp : p '\n' = false ∧ p '\r' = false) (chars : List Char) :
    (chars ++ later).takeWhile p = chars.takeWhile p := by
  induction chars with
  | cons c rest ih => rw [List.cons_append, List.takeWhile_cons, List.takeWhile_cons, ih]
  | nil =>
    cases h with
    | ended => rfl
    | newline rest => exact List.takeWhile_cons_of_neg (Bool.eq_false_iff.mp hp.1)
    | carriage rest => exact List.takeWhile_cons_of_neg (Bool.eq_false_iff.mp hp.2)

end Text

open Text

namespace Number

variable {chars later : List Char}

theorem digitRun_le (radix : Nat) (afterDigit : Bool) (chars : List Char) :
    digitRun radix afterDigit chars ≤ chars.length := by
  fun_induction digitRun radix afterDigit chars with
  | case1 => exact Nat.le_refl 0
  | case2 afterDigit c rest hdigit ih =>
    rw [List.length_cons]
    omega
  | case3 afterDigit c rest hdigit hseparates ih =>
    rw [List.length_cons]
    omega
  | case4 => exact Nat.zero_le _

theorem digitRun_append (h : AtLineEnd later) (radix : Nat) (afterDigit : Bool)
    (chars : List Char) :
    digitRun radix afterDigit (chars ++ later) = digitRun radix afterDigit chars := by
  induction chars generalizing afterDigit with
  | cons c rest ih =>
    simp only [List.cons_append, digitRun, ih, h.any_head? (p := isDigitOf radix) ⟨rfl, rfl⟩]
  | nil => cases h <;> rfl

/-- An exponent lies within the characters. -/
theorem exponent_le (chars : List Char) : exponent chars ≤ chars.length := by
  unfold exponent
  split
  · next c rest =>
    split
    · split
      · next d more =>
        have hmore := digitRun_le 10 false more
        have hrest := digitRun_le 10 false (d :: more)
        simp only [List.length_cons] at hrest ⊢
        split
        · omega
        split
        · omega
        · omega
      · exact Nat.zero_le _
    · exact Nat.zero_le _
  · exact Nat.zero_le _

/-- At the end of a line an exponent ends, if it has not ended before. -/
theorem exponent_append (h : AtLineEnd later) (chars : List Char) :
    exponent (chars ++ later) = exponent chars := by
  cases chars with
  | nil => cases h <;> rfl
  | cons c rest =>
    cases rest with
    | nil => cases h <;> rfl
    | cons d more =>
      have hrun := digitRun_append h 10 false (d :: more)
      rw [List.cons_append] at hrun
      simp only [List.cons_append, exponent, hrun, digitRun_append h,
        h.any_head? (p := isDigit) ⟨rfl, rfl⟩]

theorem fraction_le (chars : List Char) : fraction chars ≤ chars.length := by
  unfold fraction
  split
  · next rest =>
    have hrun := digitRun_le 10 false rest
    rw [List.length_cons]
    split
    · omega
    · omega
  · exact Nat.zero_le _

/-- A point at the end of a line starts a fraction, as it does at the end of the text. -/
theorem startsFraction_append (h : AtLineEnd later) (chars : List Char) :
    startsFraction (chars ++ later).head? = startsFraction chars.head? := by
  cases chars with
  | cons c rest => rfl
  | nil => cases h <;> rfl

theorem fraction_append (h : AtLineEnd later) (chars : List Char) :
    fraction (chars ++ later) = fraction chars := by
  cases chars with
  | nil => cases h <;> rfl
  | cons c rest =>
    simp only [List.cons_append, fraction_cons, startsFraction_append h, digitRun_append h]

theorem withSuffix_le {size : Nat} (hsize : size ≤ chars.length) (isFloat : Bool) :
    (withSuffix chars size isFloat).1 ≤ chars.length := by
  have hsuffix := (List.takeWhile_prefix isSuffix (l := chars.drop size)).length_le
  rw [List.length_drop] at hsuffix
  simp only [withSuffix]
  omega

theorem withSuffix_append (h : AtLineEnd later) {size : Nat} (hsize : size ≤ chars.length)
    (isFloat : Bool) :
    withSuffix (chars ++ later) size isFloat = withSuffix chars size isFloat := by
  simp only [withSuffix, List.drop_append_of_le_length hsize,
    h.takeWhile_append (p := isSuffix) ⟨rfl, rfl⟩]

theorem marked?_le {size : Nat} (h : marked? chars = some size) : size ≤ chars.length := by
  unfold marked? at h
  split at h
  · next mark rest =>
    obtain ⟨-, hsize⟩ := Option.ite_none_right_eq_some.mp h
    have hrun := digitRun_le (radixOf mark) false rest
    obtain rfl : 2 + digitRun (radixOf mark) false rest = size := Option.some.inj hsize
    simp only [List.length_cons]
    omega
  · cases h

/-- A number with a radix mark ends with the line. -/
theorem marked?_append (h : AtLineEnd later) (chars : List Char) :
    marked? (chars ++ later) = marked? chars := by
  cases chars with
  | nil => cases h <;> rfl
  | cons c rest =>
    cases rest with
    | nil =>
      -- a line end is no mark, and stands for radix zero
      have hmark {mark : Char} (hradix : radixOf mark = 0) (rest : List Char) :
          marked? (c :: mark :: rest) = marked? [c] := by
        have hdigit : rest.head?.any (isDigitOf 0) = false := by
          cases rest.head? with
          | none => rfl
          | some d => exact isDigitOf_zero d
        rw [marked?_cons, hradix, hdigit, marked?_singleton]
        exact ite_self none
      cases h with
      | ended => rfl
      | newline rest => exact hmark rfl rest
      | carriage rest => exact hmark rfl rest
    | cons mark rest =>
      simp only [List.cons_append, marked?_cons, digitRun_append h,
        h.any_head? (p := isDigitOf (radixOf mark)) ⟨rfl, rfl⟩]

/-- The whole part, the fraction and the exponent of a number without a mark lie side by side. -/
theorem unmarked_le (chars : List Char) :
    let whole := digitRun 10 false chars
    let point := fraction (chars.drop whole)
    whole + point + exponent (chars.drop (whole + point)) ≤ chars.length := by
  intro whole point
  have hwhole : whole ≤ chars.length := digitRun_le 10 false chars
  have hpoint : point ≤ (chars.drop whole).length := fraction_le _
  have hpower := exponent_le (chars.drop (whole + point))
  rw [List.length_drop] at hpoint hpower
  omega

theorem unsigned_le (chars : List Char) : (unsigned chars).1 ≤ chars.length := by
  unfold unsigned
  split
  · next size hmarked => exact withSuffix_le (marked?_le hmarked) _
  · exact withSuffix_le (unmarked_le chars) _

/-- An unsigned number ends with the line. -/
theorem unsigned_append (h : AtLineEnd later) (chars : List Char) :
    unsigned (chars ++ later) = unsigned chars := by
  unfold unsigned
  rw [marked?_append h]
  split
  · next size hmarked => exact withSuffix_append h (marked?_le hmarked) _
  · -- every part of the number starts in front of the line end
    have hunmarked := unmarked_le chars
    dsimp only at hunmarked
    have hpoint : digitRun 10 false chars + fraction (chars.drop (digitRun 10 false chars)) ≤
        chars.length := Nat.le_trans (Nat.le_add_right _ _) hunmarked
    simp only [digitRun_append h, List.drop_append_of_le_length (digitRun_le 10 false chars),
      fraction_append h, List.drop_append_of_le_length hpoint, exponent_append h]
    exact withSuffix_append h hunmarked _

/-- Whether a number starts is told on its own line. -/
theorem startsUnsigned_append (h : AtLineEnd later) (chars : List Char) :
    startsUnsigned (chars ++ later) = startsUnsigned chars := by
  cases chars with
  | nil => cases h <;> rfl
  | cons c rest =>
    cases rest with
    | nil =>
      have hpoint {d : Char} (hd : isDigit d = false) (rest : List Char) :
          startsUnsigned (c :: d :: rest) = startsUnsigned [c] := by
        rw [startsUnsigned_cons, startsUnsigned_cons]
        by_cases hc : c = '.'
        · subst hc
          exact hd
        · rw [if_neg fun h => hc h.1, if_neg fun h => hc h.1]
      cases h with
      | ended => rfl
      | newline rest => exact hpoint rfl rest
      | carriage rest => exact hpoint rfl rest
    | cons d more =>
      simp only [List.cons_append, startsUnsigned_cons, List.head?_cons, ne_eq, reduceCtorEq]

theorem starts_append (h : AtLineEnd later) (preceding : Kind) (chars : List Char) :
    starts preceding (chars ++ later) = starts preceding chars := by
  cases chars with
  | nil => cases h <;> rfl
  | cons c rest =>
    have hwhole := startsUnsigned_append h (c :: rest)
    rw [List.cons_append] at hwhole
    simp only [List.cons_append, starts, startsUnsigned_append h, hwhole]

theorem measure_le (chars : List Char) : (measure chars).1 ≤ chars.length := by
  cases chars with
  | nil => exact Nat.le_refl 0
  | cons c rest =>
    have hrest := unsigned_le rest
    have hwhole := unsigned_le (c :: rest)
    simp only [measure, List.length_cons] at hwhole ⊢
    split
    · dsimp only
      omega
    · exact hwhole

theorem measure_append (h : AtLineEnd later) (hne : chars ≠ []) :
    measure (chars ++ later) = measure chars := by
  obtain ⟨c, rest, rfl⟩ := List.exists_cons_of_ne_nil hne
  have hwhole := unsigned_append h (c :: rest)
  rw [List.cons_append] at hwhole
  simp only [List.cons_append, measure, unsigned_append h, hwhole]

end Number

/-- A quoted literal lies within the characters. -/
theorem quotedRun_le (quote : Char) (chars : List Char) :
    (quotedRun quote chars).size ≤ chars.length := by
  have hsize (run : QuotedRun) (count : Nat) : (run.after count).size = count + run.size := rfl
  fun_induction quotedRun quote chars with
  | case1 | case2 | case3 => simp
  | case4 c rest ih =>
    rw [hsize, List.length_cons, List.length_cons]
    omega
  | case5 => simp
  | case6 c rest hbreak hlast hescape hquote ih =>
    rw [hsize, List.length_cons]
    omega

namespace Scan

variable {chars later : List Char}

theorem word_append (h : AtLineEnd later) (chars : List Char) :
    word (chars ++ later) = word chars := by
  simp only [word, h.takeWhile_append (p := isNamePart) ⟨rfl, rfl⟩]

theorem atInclude_le (h : atInclude chars = true) : 8 ≤ chars.length := by
  unfold atInclude at h
  split at h
  · next rest =>
    have hword := congrArg List.length (beq_iff_eq.mp (Bool.and_eq_true_iff.mp h).1)
    rw [List.length_map, List.length_take] at hword
    simp only [List.length_cons, List.length_nil] at hword ⊢
    omega
  · cases h

/-- A directive that a line end cuts short is none. -/
theorem atInclude_append (h : AtLineEnd later) (chars : List Char) :
    atInclude (chars ++ later) = atInclude chars := by
  cases chars with
  | nil => cases h <;> rfl
  | cons c rest =>
    by_cases hc : c = '#'
    · subst hc
      by_cases hlong : 7 ≤ rest.length
      · rw [List.cons_append, atInclude, atInclude, List.take_append_of_le_length hlong,
          List.drop_append_of_le_length hlong, h.any_head? (p := isNamePart) ⟨rfl, rfl⟩]
      have hshort : atInclude ('#' :: rest) = false := by
        refine Bool.eq_false_iff.mpr fun hinclude => hlong ?_
        exact Nat.le_of_succ_le_succ (atInclude_le hinclude)
      -- the line end would be one of the letters of the word
      have hcut {d : Char} (hd : d.toLower ∉ ['i', 'n', 'c', 'l', 'u', 'd', 'e'])
          (tail : List Char) : atInclude ('#' :: (rest ++ d :: tail)) = false := by
        refine Bool.eq_false_iff.mpr fun hinclude => hd ?_
        rw [← beq_iff_eq.mp (Bool.and_eq_true_iff.mp hinclude).1]
        obtain ⟨more, hmore⟩ : ∃ more, 7 - rest.length = more + 1 :=
          Nat.exists_eq_add_one_of_ne_zero (by omega)
        rw [List.take_append, hmore, List.take_succ_cons]
        exact List.mem_map_of_mem (List.mem_append_right _ List.mem_cons_self)
      rw [hshort]
      cases h with
      | ended =>
        rw [List.append_nil]
        exact hshort
      | newline tail => exact hcut (by decide) tail
      | carriage tail => exact hcut (by decide) tail
    · have hno (tail : List Char) : atInclude (c :: tail) = false := by
        unfold atInclude
        split
        · next heq => exact absurd (List.cons.inj heq).1 hc
        · rfl
      rw [List.cons_append, hno, hno]

/-- An operator ends with the line. -/
theorem operator?_append (h : AtLineEnd later) (chars : List Char) :
    operator? (chars ++ later) = operator? chars := by
  -- no operator is spelled with a line end
  have hinner : ∀ entry ∈ operators, '\n' ∉ entry.1 ∧ '\r' ∉ entry.1 := by decide
  have hfits (spelling chars : List Char) (hs : '\n' ∉ spelling ∧ '\r' ∉ spelling) :
      spelling.isPrefixOf (chars ++ later) = spelling.isPrefixOf chars := by
    induction spelling generalizing chars with
    | nil => simp
    | cons d more ih =>
      obtain ⟨hbreak, hreturn⟩ := hs
      obtain ⟨hd, hmore⟩ := not_or.mp (mt List.mem_cons.mpr hbreak)
      obtain ⟨hd', hmore'⟩ := not_or.mp (mt List.mem_cons.mpr hreturn)
      cases chars with
      | cons c rest =>
        rw [List.cons_append, List.isPrefixOf_cons_cons, List.isPrefixOf_cons_cons,
          ih rest ⟨hmore, hmore'⟩]
      | nil =>
        have hother {c : Char} (hc : c ≠ d) (rest : List Char) :
            (d :: more).isPrefixOf (c :: rest) = false :=
          Bool.and_eq_false_imp.mpr fun heq => absurd (beq_iff_eq.mp heq).symm hc
        cases h with
        | ended => rfl
        | newline rest => exact hother hd rest
        | carriage rest => exact hother hd' rest
  exact List.find?_congr fun entry hmem => hfits entry.1 chars (hinner entry hmem)

theorem symbol_le (hne : chars ≠ []) : (symbol chars).size ≤ chars.length := by
  rw [symbol_eq]
  split
  · next spelling kind hfound =>
    have hfits : spelling.isPrefixOf chars = true :=
      @List.find?_some _ (fun entry : List Char × Kind => entry.1.isPrefixOf chars) _ _ hfound
    exact (List.isPrefixOf_iff_prefix.mp hfits).length_le
  · exact List.length_pos_iff.mpr hne

theorem symbol_append (h : AtLineEnd later) (chars : List Char) :
    symbol (chars ++ later) = symbol chars := by
  rw [symbol_eq, symbol_eq, operator?_append h]

/-- A line end ends a token that is no quoted literal. -/
theorem plain_append (h : AtLineEnd later) (preceding : Kind) {c : Char} {rest : List Char}
    (hstring : c ≠ '"') (hname : c ≠ '\'') :
    plain preceding (c :: rest ++ later) = plain preceding (c :: rest) := by
  have hstarts := Number.starts_append h preceding (c :: rest)
  have hmeasure := Number.measure_append h (List.cons_ne_nil c rest)
  have hword := word_append h (c :: rest)
  have hinclude := atInclude_append h (c :: rest)
  have hsymbol := symbol_append h (c :: rest)
  rw [List.cons_append] at hstarts hmeasure hword hinclude hsymbol ⊢
  simp only [plain, hstarts, hmeasure, hword, hinclude, hsymbol, beq_iff_eq, hstring, hname,
    if_false]

/-- An ordinary token lies within the characters. -/
theorem plain_le (preceding : Kind) (chars : List Char) :
    (plain preceding chars).size ≤ chars.length := by
  by_cases hend : chars = []
  · subst hend
    exact Nat.le_refl 0
  have hquoted (quote : Char) (rest : List Char) :
      1 + (quotedRun quote rest).size ≤ rest.length + 1 := by
    have hrun := quotedRun_le quote rest
    omega
  have hordinary := ordinary_plain preceding chars
  generalize plain preceding chars = found at hordinary ⊢
  cases hordinary with
  | ended => exact Nat.zero_le _
  | number starts => exact Number.measure_le chars
  | word start => exact (List.takeWhile_prefix _).length_le
  | string rest => exact hquoted '"' rest
  | name rest => exact hquoted '\'' rest
  | directive directs => exact atInclude_le directs
  | symbol noNumber => exact symbol_le hend

end Scan

end ScriptTree

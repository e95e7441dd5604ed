import Mathlib.Data.List.Find
import Mathlib.Tactic.IntervalCases
import ScriptTree.Proofs.Lexer.Shift

/-!
Letter case. What a lexer reads outside state lines does not depend on the case of ASCII letters:
every question that it asks about a character has the same answer for a capital and for its small
letter. So a text and the same text in small letters have the same tokens at the same places, and
only the texts of the tokens differ. A reserved word is read only where the text mentions it.
-/

namespace ScriptTree

namespace Text

def capitals : List Char :=
  ['A', 'B', 'C', 'D', 'E', 'F', 'G', 'H', 'I', 'J', 'K', 'L', 'M', 'N', 'O', 'P', 'Q', 'R', 'S',
   'T', 'U', 'V', 'W', 'X', 'Y', 'Z']

theorem mem_capitals {c : Char} (h : 'A' ≤ c) (h' : c ≤ 'Z') : c ∈ capitals := by
  have hlow : 65 ≤ c.toNat := h
  have hhigh : c.toNat ≤ 90 := h'
  have hc : Char.ofNat c.toNat = c := Char.ofNat_toNat c
  rw [← hc]
  generalize c.toNat = code at hlow hhigh
  interval_cases code <;> decide

/-- A question that has the same answer for every capital and its small letter does not depend on
case. -/
theorem apply_toLower {α : Type} {f : Char → α}
    (h : capitals.map (fun c => f c.toLower) = capitals.map f) (c : Char) :
    f c.toLower = f c := by
  by_cases hc : 'A' ≤ c ∧ c ≤ 'Z'
  · exact List.map_inj_left.mp h c (mem_capitals hc.1 hc.2)
  · have hsame : c.toLower = c := dif_neg hc
    rw [hsame]

theorem toLower_toLower (c : Char) : c.toLower.toLower = c.toLower :=
  apply_toLower (by decide) c

theorem utf8Size_toLower (c : Char) : c.toLower.utf8Size = c.utf8Size :=
  apply_toLower (by decide) c

/-- Comparison with a character that is no letter. -/
theorem toLower_beq {d : Char} (hd : isLetter d = false) (c : Char) :
    (c.toLower == d) = (c == d) := by
  refine @apply_toLower Bool (· == d) (List.map_inj_left.mpr ?_) c
  intro capital hmem
  have hletters : capitals.all (fun c => isLetter c && isLetter c.toLower) = true := by decide
  have hletter : isLetter capital = true ∧ isLetter capital.toLower = true :=
    Bool.and_eq_true_iff.mp (List.all_eq_true.mp hletters capital hmem)
  have hne : capital ≠ d := by
    rintro rfl
    rw [hletter.1] at hd
    cases hd
  have hne' : capital.toLower ≠ d := by
    rintro rfl
    rw [hletter.2] at hd
    cases hd
  rw [beq_eq_false_iff_ne.mpr hne, beq_eq_false_iff_ne.mpr hne']

theorem toLower_eq_iff {d : Char} (hd : isLetter d = false) (c : Char) :
    c.toLower = d ↔ c = d := by
  rw [← beq_iff_eq, toLower_beq hd, beq_iff_eq]

@[simp] theorem isDigit_toLower (c : Char) : isDigit c.toLower = isDigit c :=
  apply_toLower (by decide) c

@[simp] theorem isNameStart_toLower (c : Char) : isNameStart c.toLower = isNameStart c :=
  apply_toLower (by decide) c

@[simp] theorem isNamePart_toLower (c : Char) : isNamePart c.toLower = isNamePart c :=
  apply_toLower (by decide) c

@[simp] theorem isBlank_toLower (c : Char) : isBlank c.toLower = isBlank c :=
  apply_toLower (by decide) c

/-- A letter stands for the same number whatever its case, so it is a digit of the same radices. -/
@[simp] theorem isDigitOf_toLower (radix : Nat) (c : Char) :
    isDigitOf radix c.toLower = isDigitOf radix c := by
  have hvalue := @apply_toLower (Option Nat)
    (fun c => if isDigit c then some (c.toNat - '0'.toNat)
      else if 'a' ≤ c && c ≤ 'z' then some (c.toNat - 'a'.toNat + 10)
      else if 'A' ≤ c && c ≤ 'Z' then some (c.toNat - 'A'.toNat + 10)
      else none) (by decide) c
  exact congrArg (fun value => (value.filter (· < radix)).isSome) hvalue

def small (chars : List Char) : List Char :=
  chars.map Char.toLower

@[simp] theorem small_nil : small [] = [] :=
  rfl

@[simp] theorem small_cons (c : Char) (chars : List Char) :
    small (c :: chars) = c.toLower :: small chars :=
  rfl

@[simp] theorem length_small (chars : List Char) : (small chars).length = chars.length :=
  List.length_map _

theorem small_small (chars : List Char) : small (small chars) = small chars := by
  simp only [small, List.map_map]
  exact List.map_congr_left fun c _ => toLower_toLower c

theorem small_drop (count : Nat) (chars : List Char) :
    small (chars.drop count) = (small chars).drop count :=
  List.map_drop

theorem small_take (count : Nat) (chars : List Char) :
    small (chars.take count) = (small chars).take count :=
  List.map_take

@[simp] theorem byteCount_small (chars : List Char) :
    byteCount (small chars) = byteCount chars := by
  induction chars with
  | nil => rfl
  | cons c rest ih => rw [small_cons, byteCount_cons, byteCount_cons, ih, utf8Size_toLower]

/-- A run of characters of a class that does not depend on case. -/
theorem takeWhile_small {p : Char → Bool} (hp : ∀ c, p c.toLower = p c) (chars : List Char) :
    (small chars).takeWhile p = small (chars.takeWhile p) := by
  have hcomp : p ∘ Char.toLower = p := funext hp
  rw [small, List.takeWhile_map, hcomp]
  rfl

/-- Where a character stands that is no letter, it stood before. -/
theorem exists_of_small_eq_cons {chars tail : List Char} {d : Char} (hd : isLetter d = false)
    (h : small chars = d :: tail) : ∃ rest, chars = d :: rest ∧ small rest = tail := by
  cases chars with
  | nil => cases h
  | cons c rest =>
    obtain ⟨hc, htail⟩ := List.cons.inj h
    obtain rfl := (toLower_eq_iff hd c).mp hc
    exact ⟨rest, rfl, htail⟩

theorem any_head?_small {p : Char → Bool} (hp : ∀ c, p c.toLower = p c) (chars : List Char) :
    (small chars).head?.any p = chars.head?.any p := by
  cases chars with
  | nil => rfl
  | cons c rest => exact hp c

end Text

open Text

namespace Number

@[simp] theorem digitRun_small (radix : Nat) (afterDigit : Bool) (chars : List Char) :
    digitRun radix afterDigit (small chars) = digitRun radix afterDigit chars := by
  induction chars generalizing afterDigit with
  | nil => rfl
  | cons c rest ih =>
    have hquote : (c.toLower == '\'') = (c == '\'') := toLower_beq (by decide) c
    simp only [small_cons, digitRun, isDigitOf_toLower, ih, hquote,
      any_head?_small (isDigitOf_toLower radix)]

/-- The letter of an exponent counts in either case. -/
@[simp] theorem exponent_small (chars : List Char) : exponent (small chars) = exponent chars := by
  cases chars with
  | nil => rfl
  | cons c rest =>
    have hmark : (c.toLower == 'e' || c.toLower == 'E') = (c == 'e' || c == 'E') :=
      @apply_toLower Bool (fun c => c == 'e' || c == 'E') (by decide) c
    cases rest with
    | nil => simp only [exponent, small_cons, small_nil, hmark]
    | cons d more =>
      have hminus : (d.toLower == '-') = (d == '-') := toLower_beq (by decide) d
      have hplus : (d.toLower == '+') = (d == '+') := toLower_beq (by decide) d
      have hrun : digitRun 10 false (d.toLower :: small more) = digitRun 10 false (d :: more) :=
        digitRun_small 10 false (d :: more)
      simp only [exponent, small_cons, hmark, hminus, hplus, any_head?_small isDigit_toLower,
        isDigit_toLower, digitRun_small, hrun]

theorem isSuffix_toLower (c : Char) : isSuffix c.toLower = isSuffix c :=
  apply_toLower (by decide) c

theorem isFloatSuffix_toLower (c : Char) : isFloatSuffix c.toLower = isFloatSuffix c :=
  apply_toLower (by decide) c

theorem startsFraction_small (chars : List Char) :
    startsFraction (small chars).head? = startsFraction chars.head? := by
  cases chars with
  | nil => rfl
  | cons c rest =>
    exact @apply_toLower Bool (fun c => startsFraction (some c)) (by decide) c

/-- The fraction by its first character. -/
theorem fraction_cons (c : Char) (rest : List Char) :
    fraction (c :: rest) =
      if c = '.' then if startsFraction rest.head? then 1 + digitRun 10 false rest else 0
      else 0 := by
  by_cases hc : c = '.'
  · subst hc
    rfl
  · rw [if_neg hc]
    unfold fraction
    split
    · next heq => exact absurd (List.cons.inj heq).1 hc
    · rfl

@[simp] theorem fraction_small (chars : List Char) : fraction (small chars) = fraction chars := by
  cases chars with
  | nil => rfl
  | cons c rest =>
    have hpoint : c.toLower = '.' ↔ c = '.' := toLower_eq_iff (by decide) c
    simp only [small_cons, fraction_cons, hpoint, startsFraction_small, digitRun_small]

theorem withSuffix_small (chars : List Char) (size : Nat) (isFloat : Bool) :
    withSuffix (small chars) size isFloat = withSuffix chars size isFloat := by
  have hany (letters : List Char) :
      (small letters).any isFloatSuffix = letters.any isFloatSuffix := by
    rw [small, List.any_map]
    exact congrArg letters.any (funext isFloatSuffix_toLower)
  simp only [withSuffix, ← small_drop, takeWhile_small isSuffix_toLower, length_small, hany]

/-- The radix that a mark behind a zero stands for. -/
def radixOf (mark : Char) : Nat :=
  if mark == 'x' || mark == 'X' then 16 else if mark == 'b' || mark == 'B' then 2 else 0

/-- A number with a radix mark by its first two characters. -/
theorem marked?_cons (c mark : Char) (rest : List Char) :
    marked? (c :: mark :: rest) =
      if c = '0' then
        if rest.head?.any (isDigitOf (radixOf mark)) then
          some (2 + digitRun (radixOf mark) false rest)
        else none
      else none := by
  by_cases hc : c = '0'
  · subst hc
    rfl
  · rw [if_neg hc]
    unfold marked?
    split
    · next heq => exact absurd (List.cons.inj heq).1 hc
    · rfl

theorem marked?_singleton (c : Char) : marked? [c] = none := by
  unfold marked?
  split
  · next heq => cases heq
  · rfl

@[simp] theorem marked?_small (chars : List Char) : marked? (small chars) = marked? chars := by
  cases chars with
  | nil => rfl
  | cons c rest =>
    cases rest with
    | nil => rw [small_cons, small_nil, marked?_singleton, marked?_singleton]
    | cons mark rest =>
      have hzero : c.toLower = '0' ↔ c = '0' := toLower_eq_iff (by decide) c
      have hradix : radixOf mark.toLower = radixOf mark := apply_toLower (by decide) mark
      simp only [small_cons, marked?_cons, hzero, hradix,
        any_head?_small (isDigitOf_toLower (radixOf mark)), digitRun_small]

@[simp] theorem unsigned_small (chars : List Char) : unsigned (small chars) = unsigned chars := by
  simp only [unsigned, marked?_small, withSuffix_small, digitRun_small, ← small_drop,
    fraction_small, exponent_small]

/-- What starts a number by its first two characters. -/
theorem startsUnsigned_cons (c : Char) (rest : List Char) :
    startsUnsigned (c :: rest) =
      if c = '.' ∧ rest ≠ [] then rest.head?.any isDigit else isDigit c := by
  cases rest with
  | nil =>
    rw [if_neg (fun h => h.2 rfl)]
    unfold startsUnsigned
    split
    · next heq => cases (List.cons.inj heq).2
    · next heq =>
      obtain ⟨rfl, -⟩ := List.cons.inj heq
      rfl
    · next heq => cases heq
  | cons d more =>
    by_cases hc : c = '.'
    · subst hc
      rw [if_pos ⟨rfl, List.cons_ne_nil _ _⟩]
      rfl
    · rw [if_neg (fun h => hc h.1)]
      unfold startsUnsigned
      split
      · next heq => exact absurd (List.cons.inj heq).1 hc
      · next heq =>
        obtain ⟨rfl, -⟩ := List.cons.inj heq
        rfl
      · next heq => cases heq

@[simp] theorem startsUnsigned_small (chars : List Char) :
    startsUnsigned (small chars) = startsUnsigned chars := by
  cases chars with
  | nil => rfl
  | cons c rest =>
    have hpoint : c.toLower = '.' ↔ c = '.' := toLower_eq_iff (by decide) c
    have hempty : small rest ≠ [] ↔ rest ≠ [] := by
      rw [small, ne_eq, List.map_eq_nil_iff]
    simp only [small_cons, startsUnsigned_cons, hpoint, hempty, any_head?_small isDigit_toLower,
      isDigit_toLower]

theorem starts_small (preceding : Kind) (chars : List Char) :
    starts preceding (small chars) = starts preceding chars := by
  cases chars with
  | nil => rfl
  | cons c rest =>
    have hminus : (c.toLower == '-') = (c == '-') := toLower_beq (by decide) c
    have hplus : (c.toLower == '+') = (c == '+') := toLower_beq (by decide) c
    have hwhole := startsUnsigned_small (c :: rest)
    rw [small_cons] at hwhole
    simp only [small_cons, starts, hminus, hplus, startsUnsigned_small, hwhole]

theorem measure_small (chars : List Char) : measure (small chars) = measure chars := by
  cases chars with
  | nil => rfl
  | cons c rest =>
    have hminus : (c.toLower == '-') = (c == '-') := toLower_beq (by decide) c
    have hplus : (c.toLower == '+') = (c == '+') := toLower_beq (by decide) c
    have hwhole := unsigned_small (c :: rest)
    rw [small_cons] at hwhole
    simp only [small_cons, measure, hminus, hplus, unsigned_small, hwhole]

end Number

/-- A character that is neither a line break nor a backslash ends a literal if it is the quote. -/
theorem quotedRun_cons {quote c : Char} (rest : List Char) (hbreak : c ≠ '\n') (hslash : c ≠ '\\') :
    quotedRun quote (c :: rest) =
      if c == quote then ⟨1, true⟩ else (quotedRun quote rest).after 1 := by
  rw [quotedRun]
  · exact hbreak
  · exact fun h _ => hslash h
  · exact fun _ _ h _ => hslash h

/-- A backslash is the last character or takes the next one along. -/
theorem ne_backslash {c : Char} {rest : List Char} (hlast : c = '\\' → rest = [] → False)
    (hescape : ∀ d more, c = '\\' → rest = d :: more → False) : c ≠ '\\' := by
  intro hc
  cases rest with
  | nil => exact hlast hc rfl
  | cons d more => exact hescape d more hc rfl

/-- Quotes and backslashes are no letters, so a literal ends at the same place. -/
theorem quotedRun_small {quote : Char} (hq : isLetter quote = false) (chars : List Char) :
    quotedRun quote (small chars) = quotedRun quote chars := by
  have hstep {c : Char} (rest : List Char) (hbreak : c ≠ '\n') (hslash : c ≠ '\\') :
      quotedRun quote (small (c :: rest)) =
        if c == quote then ⟨1, true⟩ else (quotedRun quote (small rest)).after 1 := by
    have hbreak' : c.toLower ≠ '\n' := mt (toLower_eq_iff (by decide) c).mp hbreak
    have hslash' : c.toLower ≠ '\\' := mt (toLower_eq_iff (by decide) c).mp hslash
    rw [small_cons, quotedRun_cons _ hbreak' hslash', toLower_beq hq]
  fun_induction quotedRun quote chars with
  | case1 => rfl
  | case2 rest => rfl
  | case3 => rfl
  | case4 c rest ih =>
    have hslash : Char.toLower '\\' = '\\' := by decide
    rw [small_cons, small_cons, hslash, quotedRun, ih]
  | case5 c rest hbreak hlast hescape hquote =>
    rw [hstep rest hbreak (ne_backslash hlast hescape), if_pos hquote]
  | case6 c rest hbreak hlast hescape hquote ih =>
    rw [hstep rest hbreak (ne_backslash hlast hescape), if_neg hquote, ih]

@[simp] theorem commentRun_small (chars : List Char) :
    commentRun (small chars) = commentRun chars := by
  fun_induction commentRun chars with
  | case1 => rfl
  | case2 rest => rfl
  | case3 c rest hclose size closed hrun ih =>
    rw [small_cons, commentRun, ih, hrun]
    intro tail hc hrest
    obtain ⟨more, rfl, -⟩ := exists_of_small_eq_cons (by decide) hrest
    exact hclose more ((toLower_eq_iff (by decide) c).mp hc) rfl

/-- Where neither a comment, a line break nor a line continuation starts, there may be white
space. -/
theorem stretch?_small_cons {c : Char} {tail : List Char}
    (hline : ∀ more, c = '/' → tail = '/' :: more → False)
    (hblock : ∀ more, c = '/' → tail = '*' :: more → False) (hbreak : c = '\n' → False)
    (hnext : ∀ more, c = '\\' → tail = '\n' :: more → False)
    (hnext' : ∀ more, c = '\\' → tail = '\r' :: '\n' :: more → False) :
    stretch? (small (c :: tail)) =
      if isBlank c then some ⟨.whitespace, ((c :: tail).takeWhile isInlineBlank).length, true⟩
      else none := by
  have hsame {d : Char} (hd : isLetter d = false) (hc : c.toLower = d) : c = d :=
    (toLower_eq_iff hd c).mp hc
  have hinline (c : Char) : isInlineBlank c.toLower = isInlineBlank c := by
    rw [isInlineBlank, isInlineBlank, isBlank_toLower, bne, bne, toLower_beq (by decide)]
  rw [small_cons, stretch?]
  · rw [isBlank_toLower, ← small_cons, takeWhile_small hinline, length_small]
  · intro more hc ht
    obtain ⟨rest, rfl, -⟩ := exists_of_small_eq_cons (by decide) ht
    exact hline rest (hsame (by decide) hc) rfl
  · intro more hc ht
    obtain ⟨rest, rfl, -⟩ := exists_of_small_eq_cons (by decide) ht
    exact hblock rest (hsame (by decide) hc) rfl
  · exact fun hc => hbreak (hsame (by decide) hc)
  · intro more hc ht
    obtain ⟨rest, rfl, -⟩ := exists_of_small_eq_cons (by decide) ht
    exact hnext rest (hsame (by decide) hc) rfl
  · intro more hc ht
    obtain ⟨rest, rfl, hrest⟩ := exists_of_small_eq_cons (by decide) ht
    obtain ⟨rest', rfl, -⟩ := exists_of_small_eq_cons (by decide) hrest
    exact hnext' rest' (hsame (by decide) hc) rfl

/-- Layout is told from other characters than letters. -/
@[simp] theorem stretch?_small (chars : List Char) : stretch? (small chars) = stretch? chars := by
  fun_cases stretch? chars with
  | case1 tail =>
    have hclass (c : Char) : (c.toLower != '\n') = (c != '\n') := by
      rw [bne, bne, toLower_beq (by decide)]
    show some (Stretch.mk .lineComment ((small ('/' :: '/' :: tail)).takeWhile (· != '\n')).length
      true) = _
    rw [takeWhile_small hclass, length_small]
  | case2 rest size closed hrun =>
    show some (Stretch.mk .blockComment (2 + (commentRun (small rest)).1)
      (commentRun (small rest)).2) = _
    rw [commentRun_small, hrun]
  | case3 tail => rfl
  | case4 tail => rfl
  | case5 tail => rfl
  | case6 c tail hline hblock hbreak hnext hnext' hblank =>
    rw [stretch?_small_cons hline hblock hbreak hnext hnext', if_pos hblank]
  | case7 c tail hline hblock hbreak hnext hnext' hblank =>
    rw [stretch?_small_cons hline hblock hbreak hnext hnext', if_neg hblank]
  | case8 => rfl

/-- No operator has a letter. -/
theorem operator?_small (chars : List Char) : operator? (small chars) = operator? chars := by
  -- no operator is spelled with letters
  have hsymbols : ∀ entry ∈ operators, entry.1.all (fun c => !isLetter c) = true := by decide
  have hfits (spelling chars : List Char) (hs : spelling.all (fun c => !isLetter c) = true) :
      spelling.isPrefixOf (small chars) = spelling.isPrefixOf chars := by
    induction spelling generalizing chars with
    | nil => simp
    | cons d more ih =>
      obtain ⟨hd, hmore⟩ := Bool.and_eq_true_iff.mp hs
      cases chars with
      | nil => rfl
      | cons c rest =>
        have hd' : (c.toLower == d) = (c == d) := toLower_beq (Bool.not_eq_true' _ ▸ hd) c
        rw [small_cons, List.isPrefixOf_cons_cons, List.isPrefixOf_cons_cons, ih rest hmore,
          BEq.comm, hd', BEq.comm]
  exact List.find?_congr fun entry hmem => hfits entry.1 chars (hsymbols entry hmem)

theorem keyword?_small (word : List Char) :
    keyword? (String.ofList (small word)) = keyword? (String.ofList word) := by
  have hlower : lower (String.ofList (small word)) = lower (String.ofList word) := by
    simp only [lower, String.toList_ofList]
    exact congrArg String.ofList (small_small word)
  rw [keyword?, keyword?, hlower]

namespace Scan

theorem word_small (chars : List Char) : word (small chars) = word chars := by
  simp only [word, takeWhile_small isNamePart_toLower, keyword?_small, length_small]

theorem quoted_small {quote : Char} (hq : isLetter quote = false) (chars : List Char) (kind : Kind)
    (fault : LexFault) : quoted (small chars) quote kind fault = quoted chars quote kind fault := by
  simp only [quoted, ← small_drop, quotedRun_small hq]

/-- The directive is read in either case. -/
theorem atInclude_small (chars : List Char) : atInclude (small chars) = atInclude chars := by
  fun_cases atInclude chars with
  | case1 rest =>
    have htake : (small (rest.take 7)).map Char.toLower = (rest.take 7).map Char.toLower :=
      small_small _
    have hcons : small ('#' :: rest) = '#' :: small rest := rfl
    rw [hcons, atInclude, ← small_take, ← small_drop, htake, any_head?_small isNamePart_toLower]
  | case2 chars hmark =>
    rw [atInclude]
    intro tail htail
    obtain ⟨rest, rfl, -⟩ := exists_of_small_eq_cons (by decide) htail
    exact hmark rest rfl

theorem symbol_small (chars : List Char) : symbol (small chars) = symbol chars := by
  rw [symbol_eq, symbol_eq, operator?_small]

/-- An ordinary token has the same kind and length in either case. -/
theorem plain_small (preceding : Kind) (chars : List Char) :
    plain preceding (small chars) = plain preceding chars := by
  cases chars with
  | nil => rfl
  | cons c rest =>
    have hstring : (c.toLower == '"') = (c == '"') := toLower_beq (by decide) c
    have hname : (c.toLower == '\'') = (c == '\'') := toLower_beq (by decide) c
    have hstarts := Number.starts_small preceding (c :: rest)
    have hmeasure := Number.measure_small (c :: rest)
    have hword := word_small (c :: rest)
    have hquoted {quote : Char} (hq : isLetter quote = false) := quoted_small hq (c :: rest)
    have hinclude := atInclude_small (c :: rest)
    have hsymbol := symbol_small (c :: rest)
    rw [small_cons] at hstarts hmeasure hword hinclude hsymbol ⊢
    simp only [small_cons] at hquoted
    simp only [plain, hstarts, hmeasure, isNameStart_toLower, hword, hstring, hname, hinclude,
      hsymbol, hquoted (show isLetter '"' = false by decide),
      hquoted (show isLetter '\'' = false by decide)]

end Scan

/-- Outside state lines, a token is read without regard to case. -/
theorem scan_small {mode : LexMode} (hmode : mode = .plain ∨ mode = .angle) (preceding : Kind)
    (chars : List Char) : scan mode preceding (small chars) = scan mode preceding chars := by
  have hspecial : Scan.special? mode (small chars) = Scan.special? mode chars := by
    rcases hmode with rfl | rfl
    · rfl
    · cases chars with
      | nil => rfl
      | cons c rest =>
        have hhead : (c.toLower == '>') = (c == '>') := toLower_beq (by decide) c
        simp only [Scan.special?, small_cons, List.head?_cons, Option.some_beq_some, hhead]
        rfl
  rw [scan, scan, hspecial, Scan.plain_small]

def Cursor.lower (cursor : Cursor) : Cursor :=
  ⟨cursor.offset, small cursor.rest⟩

theorem Cursor.skip_lower (cursor : Cursor) (count : Nat) :
    cursor.lower.skip count = (cursor.skip count).lower := by
  simp only [skip, lower, peek, ← small_take, byteCount_small, small_drop]

def Token.lower (token : Token) : Token :=
  { token with text := Text.lower token.text }

def Layout.lower (run : Layout) : Layout :=
  { run with after := run.after.lower }

theorem layout_lower (start : Cursor) : layout start.lower = (layout start).lower := by
  fun_induction layout start with
  | case1 start hs =>
    have hs' : stretch? start.lower.rest = none := (stretch?_small start.rest).trans hs
    rw [layout_of_none hs']
    rfl
  | case2 start stretch hs next span more ih =>
    have hs' : stretch? start.lower.rest = some stretch := (stretch?_small start.rest).trans hs
    rw [layout_of_some hs', Cursor.skip_lower, ih]
    rfl

/-- A token with its layout is read alike in either case, except in the modes of state lines. -/
theorem lex_lower {mode : LexMode} (hmode : mode = .plain ∨ mode = .angle) (preceding : Kind)
    (start : Cursor) :
    lex mode preceding start.lower =
      ((lex mode preceding start).1.lower, (lex mode preceding start).2.lower) := by
  let front := layout start
  let found := scan mode preceding front.after.rest
  have hfront : layout start.lower = front.lower := layout_lower start
  have hfound : scan mode preceding front.lower.after.rest = found := scan_small hmode preceding _
  have hstop : front.lower.after.skip found.size = (front.after.skip found.size).lower :=
    Cursor.skip_lower _ _
  have hback := layout_lower (front.after.skip found.size)
  have htext : String.ofList (front.lower.after.peek found.size) =
      Text.lower (String.ofList (front.after.peek found.size)) := by
    rw [Text.lower, String.toList_ofList]
    exact congrArg String.ofList (small_take found.size front.after.rest).symm
  simp only [lex, hfront, hfound, hstop, hback, htext]
  rfl

namespace Lexer

def lower (lexer : Lexer) : Lexer :=
  { lexer with
    start := lexer.start.lower
    current := lexer.current.lower
    next := lexer.next.lower }

theorem place_lower {mode : LexMode} (hmode : mode = .plain ∨ mode = .angle) (start : Cursor)
    (preceding : Kind) : place start.lower mode preceding = (place start mode preceding).lower := by
  simp only [place, lex_lower hmode]
  rfl

theorem ofText_lower (text : String) : ofText (Text.lower text) = (ofText text).lower := by
  have hstart : Cursor.ofText (Text.lower text) = (Cursor.ofText text).lower := by
    rw [Cursor.ofText, Text.lower, String.toList_ofList]
    rfl
  rw [ofText, hstart]
  exact place_lower (Or.inl rfl) _ _

theorem advance_lower (lexer : Lexer) : lexer.lower.advance = lexer.advance.lower :=
  place_lower (Or.inl rfl) lexer.next lexer.current.kind

theorem angle_lower (lexer : Lexer) :
    lexer.lower.relex .angle = (lexer.relex .angle).lower := by
  have hmode : lexer.lower.mode = lexer.mode := rfl
  simp only [relex, hmode]
  split
  · rfl
  · exact place_lower (Or.inr rfl) lexer.start lexer.preceding

end Lexer

theorem Lexer.collect_lower (lexer : Lexer) (limit : Nat) :
    lexer.lower.collect limit = (lexer.collect limit).map Token.lower := by
  induction limit generalizing lexer with
  | zero => rfl
  | succ limit ih =>
    have hkind : lexer.lower.current.kind = lexer.current.kind := rfl
    rw [collect, collect, hkind, advance_lower, ih]
    split <;> rfl

/-- A text in small letters has the same tokens in small letters. -/
theorem tokenize_lower (text : String) :
    tokenize (Text.lower text) = (tokenize text).map Token.lower := by
  have hlength : (Text.lower text).length = text.length := by
    rw [← String.length_toList, ← String.length_toList, Text.lower, String.toList_ofList,
      List.length_map]
  rw [tokenize, tokenize, Lexer.ofText_lower, hlength, Lexer.collect_lower]

/-- Whether the word, in small letters, stands somewhere in the text, be it as part of another
one. -/
def Text.Mentions (text word : String) : Prop :=
  word.toList <:+: (lower text).toList

instance (text word : String) : Decidable (Text.Mentions text word) :=
  inferInstanceAs (Decidable (word.toList <:+: (lower text).toList))

theorem keyword?_eq_statesKw {word : String} (h : keyword? word = some .statesKw) :
    lower word = "states" := by
  have hunique : ∀ entry ∈ keywords, entry.2 = .statesKw → entry.1 = "states" := by decide
  exact hunique _ (keyword?_mem h) rfl

namespace Scan

/-- The only spelling of this keyword is the word itself. -/
theorem word_statesKw {chars : List Char} (h : (word chars).kind = .statesKw) :
    small (chars.take (word chars).size) = "states".toList := by
  have hword : keyword? (String.ofList (chars.takeWhile isNamePart)) = some .statesKw := by
    simp only [word, sound] at h
    cases hk : keyword? (String.ofList (chars.takeWhile isNamePart)) with
    | none =>
      rw [hk] at h
      cases h
    | some kind =>
      rw [hk] at h
      exact congrArg some h
  have htake : chars.take (word chars).size = chars.takeWhile isNamePart := by
    have hsize : (word chars).size = (chars.takeWhile isNamePart).length := rfl
    rw [hsize]
    exact (List.prefix_iff_eq_take.mp (List.takeWhile_prefix _)).symm
  have hlower := congrArg String.toList (keyword?_eq_statesKw hword)
  rw [lower, String.toList_ofList, String.toList_ofList] at hlower
  rw [htake]
  exact hlower

/-- An ordinary token of this kind is the word itself, in some letter case. -/
theorem plain_statesKw {preceding : Kind} {chars : List Char}
    (h : (plain preceding chars).kind = .statesKw) :
    small (chars.take (plain preceding chars).size) = "states".toList := by
  have hnumber : (Number.measure chars).2 ≠ .statesKw := by
    cases chars with
    | nil => simp [Number.measure]
    | cons c rest =>
      have hsuffix (chars : List Char) (size : Nat) (isFloat : Bool) :
          (Number.withSuffix chars size isFloat).2 ≠ .statesKw := by
        simp only [Number.withSuffix]
        split <;> simp
      have hunsigned (chars : List Char) : (Number.unsigned chars).2 ≠ .statesKw := by
        unfold Number.unsigned
        split <;> exact hsuffix _ _ _
      simp only [Number.measure]
      split
      · exact hunsigned rest
      · exact hunsigned (c :: rest)
  have hsymbol : (symbol chars).kind ≠ .statesKw := by
    have hkind : ∀ entry ∈ operators, entry.2 ≠ .statesKw := by decide
    rw [symbol_eq]
    split
    · next hop => exact hkind _ (operator?_mem hop)
    · exact Kind.noConfusion
  unfold plain at h ⊢
  split at h
  · cases h
  · next c rest =>
    split at h
    · exact absurd h hnumber
    · next hstarts =>
      rw [if_neg hstarts]
      split at h
      · next hname =>
        rw [if_pos hname]
        exact word_statesKw h
      · split at h
        · cases h
        · split at h
          · cases h
          · split at h
            · cases h
            · exact absurd h hsymbol

end Scan

/-- The keyword of state blocks is read from its own letters only. -/
theorem scan_statesKw {mode : LexMode} {preceding : Kind} {chars : List Char}
    (h : (scan mode preceding chars).kind = .statesKw) :
    small (chars.take (scan mode preceding chars).size) = "states".toList := by
  unfold scan at h ⊢
  cases hs : Scan.special? mode chars with
  | none =>
    rw [hs] at h
    exact Scan.plain_statesKw h
  | some found =>
    -- a mode of its own knows sprites, frames and single angles, but no words
    rw [hs] at h
    have hkind : found.kind ≠ .statesKw := by
      cases mode with
      | plain => cases hs
      | sprite =>
        obtain ⟨size, -, rfl⟩ := Option.map_eq_some_iff.mp hs
        exact Kind.noConfusion
      | frames =>
        obtain ⟨size, -, rfl⟩ := Option.map_eq_some_iff.mp hs
        exact Kind.noConfusion
      | angle =>
        simp only [Scan.special?, Option.ite_none_right_eq_some] at hs
        obtain ⟨-, hs⟩ := hs
        obtain rfl := Option.some.inj hs
        exact Kind.noConfusion
    exact absurd h hkind

/-- A text that does not mention states has no block of them. -/
theorem Lexer.Reached.kind_ne_statesKw {text : String} {lexer : Lexer} (h : lexer.Reached text)
    (hfree : ¬ Text.Mentions text "states") : lexer.current.kind ≠ .statesKw := by
  intro hkind
  let first := (layout lexer.start).after
  let size := (scan lexer.mode lexer.preceding first.rest).size
  have hword : small (first.rest.take size) = "states".toList := by
    rw [h.placed.current_eq] at hkind
    exact scan_statesKw hkind
  obtain ⟨before, hbefore, -⟩ := h.within
  obtain ⟨leading, hleading, -⟩ := (layout_laid lexer.start).passes
  have htext : text.toList = before ++ leading ++ first.rest.take size ++ first.rest.drop size := by
    calc text.toList = before ++ lexer.start.rest := hbefore
      _ = before ++ (leading ++ first.rest) := by rw [hleading]
      _ = before ++ leading ++ (first.rest.take size ++ first.rest.drop size) := by
        rw [List.take_append_drop, List.append_assoc]
      _ = _ := by rw [← List.append_assoc]
  refine hfree ⟨small (before ++ leading), small (first.rest.drop size), ?_⟩
  have hlower : (Text.lower text).toList = small text.toList := String.toList_ofList
  rw [hlower, htext, ← hword]
  simp only [small, List.map_append]

end ScriptTree

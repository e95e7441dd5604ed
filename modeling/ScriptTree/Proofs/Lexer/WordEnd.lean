import ScriptTree.Proofs.Lexer.Case
import ScriptTree.Proofs.Lexer.Decimal
import ScriptTree.Proofs.Lexer.LineEnd
import ScriptTree.Proofs.Lexer.Sign

/-!
Where ordinary tokens end in front of the characters of a word. A token that starts among them ends
with them. The only one that can go on behind them is a number, with a point, a sign or a separator.
-/

namespace ScriptTree

open Text

theorem Text.isNamePart_of_isDigitOf {radix : Nat} {c : Char} (h : isDigitOf radix c = true) :
    isNamePart c = true := by
  simp only [isDigitOf, digitValue?] at h
  simp only [isNamePart, isLetter, Bool.or_eq_true]
  split at h
  · next hdigit => exact Or.inl (Or.inr hdigit)
  split at h
  · next hsmall => exact Or.inl (Or.inl (Or.inl hsmall))
  split at h
  · next hcapital => exact Or.inl (Or.inl (Or.inr hcapital))
  · cases h

/-- Where every character that is taken is of a class, those taken end before one that is not. -/
theorem le_length_of_take {p : Char → Prop} {front rest : List Char} {c : Char} {size : Nat}
    (h : ∀ d ∈ (front ++ c :: rest).take size, p d) (hc : ¬ p c) : size ≤ front.length := by
  by_contra hlt
  refine hc (h c ?_)
  obtain ⟨more, rfl⟩ := Nat.exists_eq_add_of_lt (Nat.not_le.mp hlt)
  rw [Nat.add_assoc, List.take_length_add_append, List.take_succ_cons]
  exact List.mem_append_right _ List.mem_cons_self

namespace Number

open FloatLiteral Integer

variable {chars front rest : List Char}

def isPart (c : Char) : Bool :=
  isNamePart c || ['.', '\'', '+', '-'].contains c

theorem isNamePart_of_isSuffix {c : Char} (h : isSuffix c = true) : isNamePart c = true := by
  have hall : ∀ c ∈ ['u', 'U', 'l', 'L', 'f', 'F'], isNamePart c = true :=
    forall_mem_of_all (by decide)
  exact hall c (mem_of_isSuffix h)

/-- A radix mark is a letter. -/
theorem isNamePart_of_radixOf {mark d : Char} (h : isDigitOf (radixOf mark) d = true) :
    isNamePart mark = true := by
  unfold radixOf at h
  split at h
  · next hmark =>
    rw [Bool.or_eq_true, beq_iff_eq, beq_iff_eq] at hmark
    rcases hmark with rfl | rfl <;> decide
  split at h
  · next hmark =>
    rw [Bool.or_eq_true, beq_iff_eq, beq_iff_eq] at hmark
    rcases hmark with rfl | rfl <;> decide
  · rw [isDigitOf_zero] at h
    cases h

/-- In a number with a radix mark there are word characters and separators only. -/
theorem marked?_written {size : Nat} (h : marked? chars = some size) :
    ∀ c ∈ chars.take size, isNamePart c = true ∨ c = '\'' := by
  unfold marked? at h
  split at h
  case h_2 => cases h
  case h_1 mark rest =>
    change (if rest.head?.any (isDigitOf (radixOf mark)) then
      some (2 + digitRun (radixOf mark) false rest) else none) = some size at h
    obtain ⟨hnext, hsize⟩ := Option.ite_none_right_eq_some.mp h
    obtain ⟨d, -, hd⟩ := (Option.any_eq_true _ _).mp hnext
    rw [← Option.some.inj hsize, Nat.add_comm, List.take_succ_cons, List.take_succ_cons,
      List.forall_mem_cons, List.forall_mem_cons]
    exact ⟨Or.inl rfl, Or.inl (isNamePart_of_radixOf hd), fun c hmem =>
      (digitRun_written _ _ _ c hmem).imp_left isNamePart_of_isDigitOf⟩

/-- A number with the mark of a base has letters, digits and separators. -/
theorem written_of_marked {size : Nat} (h : marked? chars = some size) :
    ∀ c ∈ chars.take (unsigned chars).1, isNamePart c = true ∨ c = '\'' := by
  obtain ⟨suffix, hsuffix, htake, -⟩ := withSuffix_take chars size false
  rw [unsigned, h]
  dsimp only
  rw [htake, List.forall_mem_append]
  exact ⟨marked?_written h, fun c hmem => Or.inl (isNamePart_of_isSuffix (hsuffix c hmem))⟩

/-- Whatever is taken for a number has letters, digits and the marks of numbers. -/
theorem isPart_of_unsigned (hstarts : startsUnsigned chars = true) :
    ∀ c ∈ chars.take (unsigned chars).1, isPart c = true := by
  have hword {c : Char} (h : isNamePart c = true) : isPart c = true := by
    rw [isPart, h, Bool.true_or]
  have hquote : isPart '\'' = true := by decide
  intro c hmem
  cases hmarked : marked? chars with
  | some size =>
    rcases written_of_marked hmarked c hmem with hc | rfl
    · exact hword hc
    · exact hquote
  | none =>
    obtain ⟨spelling, hsign, hchars⟩ := exists_decimal_of_unmarked hmarked hstarts
    rw [← hchars, FloatLiteral.Spelling.chars, hsign, List.nil_append, FloatLiteral.Spelling.body,
      List.mem_append, List.mem_append, List.mem_append] at hmem
    have hrun {digits : List Char} (h : IsRun digits) (hc : c ∈ digits) : isPart c = true := by
      rcases h c hc with hdigit | rfl
      · exact hword (by simp [isNamePart, hdigit])
      · exact hquote
    rcases hmem with (hmem | hmem | hmem) | hmem
    · exact hrun spelling.digits hmem
    · rcases spelling.point with hnil | ⟨digits, hfraction, hdigits⟩
      · rw [hnil] at hmem
        cases hmem
      · rw [hfraction, List.mem_cons] at hmem
        rcases hmem with rfl | hmem
        · decide
        · exact hrun hdigits hmem
    · rcases spelling.power with hnil | ⟨mark, sign, digits, hexponent, hmark, hsign, hdigits, -⟩
      · rw [hnil] at hmem
        cases hmem
      · have hmarks : ∀ c ∈ ['e', 'E'], isPart c = true := forall_mem_of_all (by decide)
        have hsigns : ∀ sign ∈ [[], ['+'], ['-']], sign.all isPart = true := by decide
        rw [hexponent, List.mem_cons, List.mem_append] at hmem
        rcases hmem with rfl | hmem | hmem
        · exact hmarks _ hmark
        · exact List.all_eq_true.mp (hsigns sign hsign) c hmem
        · exact hrun hdigits hmem
    · have hletters : ∀ c ∈ ['u', 'U', 'l', 'L', 'f', 'F'], isPart c = true :=
        forall_mem_of_all (by decide)
      exact hletters c (spelling.letters c hmem)

/-- There is no point in an exponent. -/
theorem ne_point_of_exponent (chars : List Char) :
    ∀ c ∈ chars.take (exponent chars), c ≠ '.' := by
  intro c hmem
  rintro rfl
  rcases exponent_take chars with hnil | ⟨mark, sign, digits, hexponent, hmark, hsign, hdigits, -⟩
  · rw [hnil] at hmem
    cases hmem
  · rw [hexponent, List.mem_cons, List.mem_append] at hmem
    rcases hmem with rfl | hmem | hmem
    · exact absurd hmark (by decide)
    · have hsigns : ∀ sign ∈ [[], ['+'], ['-']], '.' ∉ sign := by decide
      exact hsigns sign hsign hmem
    · exact absurd (hdigits _ hmem) (by decide)

/-- A number that goes on behind some characters with a point goes on as the number does that starts
with the point. -/
theorem unsigned_of_point (hfront : ∀ c ∈ front, c ≠ '.')
    (hover : front.length < (unsigned (front ++ '.' :: rest)).1) :
    (unsigned (front ++ '.' :: rest)).1 = front.length + (unsigned ('.' :: rest)).1 := by
  let back := '.' :: rest
  have hpoint : ¬ (isNamePart '.' = true ∨ '.' = '\'') := by decide
  cases hmarked : marked? (front ++ back) with
  | some size =>
    have hle := le_length_of_take (written_of_marked hmarked) hpoint
    omega
  | none =>
    let whole := digitRun 10 false (front ++ back)
    have hwhole : whole ≤ front.length :=
      le_length_of_take (fun c hmem => (digitRun_written _ _ _ c hmem).imp_left
        isNamePart_of_isDigitOf) hpoint
    let point := fraction ((front ++ back).drop whole)
    let power := exponent ((front ++ back).drop (whole + point))
    have hunsigned : unsigned (front ++ back) =
        withSuffix (front ++ back) (whole + point + power) (0 < point || 0 < power) := by
      rw [unsigned, hmarked]
    rcases Nat.lt_or_eq_of_le hwhole with hlt | heq
    · -- digits that end before the point lead to no fraction, and nothing else has a point
      obtain ⟨c, more, hmore⟩ : ∃ c more, front.drop whole = c :: more :=
        List.exists_cons_of_length_pos (by rw [List.length_drop]; omega)
      have hc : c ≠ '.' := hfront c (List.mem_of_mem_drop (by rw [hmore]; exact List.mem_cons_self))
      have hdrop : (front ++ back).drop whole = c :: (more ++ back) := by
        rw [List.drop_append_of_le_length hwhole, hmore, List.cons_append]
      have hnone : point = 0 := by
        rw [show point = fraction ((front ++ back).drop whole) from rfl, hdrop]
        unfold fraction
        split
        · next heq => exact absurd (List.cons.inj heq).1 hc
        · rfl
      have hpower : ∀ d ∈ ((front ++ back).drop whole).take power, d ≠ '.' := by
        rw [show power = exponent ((front ++ back).drop (whole + point)) from rfl, hnone]
        exact ne_point_of_exponent _
      obtain ⟨suffix, hsuffix, htake, -⟩ :=
        withSuffix_take (front ++ back) (whole + point + power) (0 < point || 0 < power)
      have hall : ∀ d ∈ (front ++ back).take (unsigned (front ++ back)).1, d ≠ '.' := by
        rw [hunsigned, htake, hnone, Nat.add_zero, List.take_add, List.forall_mem_append,
          List.forall_mem_append]
        refine ⟨⟨fun d hmem => ?_, hpower⟩, fun d hmem => ?_⟩
        · rintro rfl
          exact hpoint ((digitRun_written _ _ _ _ hmem).imp_left isNamePart_of_isDigitOf)
        · rintro rfl
          exact absurd (hsuffix _ hmem) (by decide)
      exact absurd (le_length_of_take hall (fun h => h rfl)) (Nat.not_le.mpr hover)
    · -- the digits end at the point, so both numbers go on alike from there
      have hdrop (count : Nat) : (front ++ back).drop (whole + count) = back.drop count := by
        rw [heq, List.drop_length_add_append]
      have hback : unsigned back =
          withSuffix back (0 + point + power) (0 < point || 0 < power) := by
        have hpoint : point = fraction back := congrArg fraction (hdrop 0)
        have hpower : power = exponent (back.drop (0 + fraction back)) := by
          rw [Nat.zero_add, ← hpoint]
          exact congrArg exponent (hdrop point)
        rw [hpower, hpoint]
        rfl
      have hsuffix : (front ++ back).drop (whole + point + power) =
          back.drop (0 + point + power) := by
        rw [Nat.zero_add, Nat.add_assoc]
        exact hdrop _
      rw [hunsigned, hback]
      show whole + point + power + (((front ++ back).drop (whole + point + power)).takeWhile
        isSuffix).length = front.length + (0 + point + power +
          ((back.drop (0 + point + power)).takeWhile isSuffix).length)
      rw [hsuffix]
      omega

end Number

def Text.isWordPart (c : Char) : Bool :=
  isNamePart c || isFrameChar c

theorem Text.toNat_lt_of_isWordPart {c : Char} (h : isWordPart c = true) : c.toNat < 128 := by
  simp only [isWordPart, isNamePart, isFrameChar, isLetter, isDigit, Bool.or_eq_true,
    Bool.and_eq_true, decide_eq_true_eq, beq_iff_eq] at h
  rcases h with (((⟨-, h⟩ | ⟨-, h⟩) | ⟨-, h⟩) | rfl) |
    ((((⟨-, h⟩ | ⟨-, h⟩) | rfl) | rfl) | rfl) | rfl
  all_goals first | exact Nat.lt_of_le_of_lt h (by decide) | decide

/-- What holds of all ASCII characters of words holds of all characters of words. -/
theorem Text.of_isWordPart {p : Char → Prop}
    (h : ∀ code < 128, isWordPart (Char.ofNat code) = true → p (Char.ofNat code)) {c : Char}
    (hc : isWordPart c = true) : p c :=
  @Integer.of_ascii (fun c => isWordPart c = true → p c) h c (toNat_lt_of_isWordPart hc) hc

namespace Scan

variable {run after : List Char} {c : Char}

theorem operatorAt_wordPart (hc : isWordPart c = true) (rest : List Char) :
    operatorAt c rest ∈ [(Kind.leftBracket, 1), (.rightBracket, 1), (.unknown, 1)] := by
  unfold operatorAt
  split
  case h_3 | h_4 | h_25 => simp
  all_goals exact absurd hc (by decide)

/-- A name ends with the characters of names. -/
theorem word_size_le (hafter : after.head?.any isNamePart = false) :
    (word (run ++ after)).size ≤ run.length := by
  have hall : ((run ++ after).takeWhile isNamePart).all isNamePart = true := List.all_takeWhile
  show ((run ++ after).takeWhile isNamePart).length ≤ run.length
  cases after with
  | nil => simpa using (List.takeWhile_prefix (l := run) isNamePart).length_le
  | cons x more =>
    have htaken : ∀ c ∈ (run ++ x :: more).take ((run ++ x :: more).takeWhile isNamePart).length,
        isNamePart c = true := by
      rw [← List.prefix_iff_eq_take.mp (List.takeWhile_prefix isNamePart)]
      exact List.all_eq_true.mp hall
    exact le_length_of_take htaken (Bool.eq_false_iff.mp hafter)

/-- The include directive ends with the letters of its name. -/
theorem include_size_le (h : atInclude (c :: (run ++ after)) = true)
    (hafter : after.head?.any isNamePart = false) : 8 ≤ (c :: run).length := by
  have hle := atInclude_le h
  have hword : ((run ++ after).take 7).map Char.toLower = ['i', 'n', 'c', 'l', 'u', 'd', 'e'] := by
    unfold atInclude at h
    split at h
    · next heq =>
      obtain ⟨-, rfl⟩ := List.cons.inj heq
      exact beq_iff_eq.mp (Bool.and_eq_true_iff.mp h).1
    · cases h
  have hletters : ∀ d ∈ (run ++ after).take 7, isNamePart d = true := by
    intro d hmem
    have hall : ∀ d ∈ ['i', 'n', 'c', 'l', 'u', 'd', 'e'], isNamePart d = true :=
      Integer.forall_mem_of_all (by decide)
    rw [← isNamePart_toLower]
    exact hall _ (hword ▸ List.mem_map_of_mem hmem)
  cases after with
  | nil => rwa [List.append_nil] at hle
  | cons x more =>
    exact Nat.succ_le_succ (le_length_of_take hletters (Bool.eq_false_iff.mp hafter))

/-- In front of the characters of a word, a token ends with them, or it is a number that goes on. -/
theorem Ordinary.ends_of_wordPart {preceding : Kind} {chars : List Char} {found : Scan}
    (h : Ordinary preceding chars found) (hchars : chars = c :: (run ++ after))
    (hc : isWordPart c = true) (hafter : after.head?.any isNamePart = false) :
    found.kind ∉ [Kind.semicolon, .leftBrace, .rightBrace] ∧
      (found.size ≤ (c :: run).length ∨
        isDigit c = true ∧ (c :: run).length < (Number.unsigned chars).1) := by
  cases h with
  | ended => cases hchars
  | number starts =>
    subst hchars
    have hmarks : c ≠ '-' ∧ c ≠ '+' ∧ c ≠ '.' := by
      refine ⟨?_, ?_, ?_⟩
      all_goals
        rintro rfl
        exact absurd hc (by decide)
    have hsign : (c == '-' || c == '+') = false := by
      rw [Bool.or_eq_false_iff, beq_eq_false_iff_ne, beq_eq_false_iff_ne]
      exact ⟨hmarks.1, hmarks.2.1⟩
    rw [Number.starts, hsign] at starts
    change Number.startsUnsigned (c :: (run ++ after)) = true at starts
    rw [Number.startsUnsigned_cons, if_neg fun h => hmarks.2.2 h.1] at starts
    rw [Number.measure, hsign]
    refine ⟨?_, (Nat.lt_or_ge _ _).symm.imp_right fun hover => ⟨starts, hover⟩⟩
    have hkinds : Kind.floatNumber ∉ [Kind.semicolon, .leftBrace, .rightBrace] ∧
        Kind.intNumber ∉ [Kind.semicolon, .leftBrace, .rightBrace] := by decide
    show (Number.unsigned (c :: (run ++ after))).2 ∉ _
    rcases Number.unsigned_kind (c :: (run ++ after)) with hkind | hkind
    · exact hkind ▸ hkinds.1
    · exact hkind ▸ hkinds.2
  | @word d rest start =>
    have hkeywords : Kind.name ∉ [Kind.semicolon, .leftBrace, .rightBrace] ∧
        ∀ kind ∈ keywords.map Prod.snd, kind ∉ [Kind.semicolon, .leftBrace, .rightBrace] := by
      decide
    refine ⟨?_, Or.inl ?_⟩
    · rcases word_kind (d :: rest) with hkind | hkind
      · exact hkind ▸ hkeywords.1
      · exact hkeywords.2 _ hkind
    · rw [hchars]
      exact @word_size_le (c :: run) after hafter
  | string rest =>
    obtain ⟨rfl, -⟩ := List.cons.inj hchars
    exact absurd hc (by decide)
  | name rest =>
    obtain ⟨rfl, -⟩ := List.cons.inj hchars
    exact absurd hc (by decide)
  | directive directs =>
    have hkind : Kind.includeKw ∉ [Kind.semicolon, .leftBrace, .rightBrace] := by decide
    exact ⟨hkind, Or.inl (include_size_le (hchars ▸ directs) hafter)⟩
  | symbol noNumber =>
    subst hchars
    have hentries : ∀ entry ∈ [(Kind.leftBracket, 1), (.rightBracket, 1), (.unknown, 1)],
        entry.1 ∉ [Kind.semicolon, .leftBrace, .rightBrace] ∧ entry.2 = 1 := by decide
    obtain ⟨hkind, hsize⟩ := hentries _ (operatorAt_wordPart hc (run ++ after))
    refine ⟨hkind, Or.inl ?_⟩
    show (operatorAt c (run ++ after)).2 ≤ _
    rw [hsize]
    exact Nat.succ_le_of_lt (Nat.succ_pos _)

end Scan

end ScriptTree

import ScriptTree.Proofs.LexicalErrors
import ScriptTree.Proofs.StringLiterals

/-!
The closing quotes of literals. A lexer finds the closing quote of a literal from the left, a
backslash taking the next character along; the decoders look for it at the end of the text. Both
find the quote of every literal that is closed. Where a literal is left open and still ends in a
quote, a backslash takes that quote along: then the decoder of strings finds a backslash that starts
no escape, but the decoder of names takes the quote for the closing one.
-/

namespace ScriptTree

open Text

theorem getLast?_cons_of_eq {c d : Char} {rest : List Char} (h : rest.getLast? = some d) :
    (c :: rest).getLast? = some d := by
  rw [List.getLast?_cons, h]
  rfl

/-- What is taken of a literal that is left open can stand between quotes, up to a lone backslash at
the end. -/
theorem isQuotable_of_quotedRun_open {quote : Char} {chars : List Char}
    (h : (quotedRun quote chars).closed = false) :
    isQuotable quote (chars.take (quotedRun quote chars).size) = true ∨
      (chars.take (quotedRun quote chars).size).getLast? = some '\\' := by
  have hsize (run : QuotedRun) (count : Nat) : (run.after count).size = run.size + count :=
    Nat.add_comm _ _
  fun_induction quotedRun quote chars with
  | case1 => exact Or.inl rfl
  | case2 rest => exact Or.inl rfl
  | case3 => exact Or.inr rfl
  | case4 c rest ih =>
    rw [hsize, List.take_succ_cons, List.take_succ_cons]
    exact (ih h).imp id fun htaken => getLast?_cons_of_eq (getLast?_cons_of_eq htaken)
  | case5 => cases h
  | case6 c rest hbreak hend hescape hquote ih =>
    have hslash : c ≠ '\\' := ne_backslash hend hescape
    have hother : c ≠ quote := fun heq => hquote (beq_iff_eq.mpr heq)
    have hline : c ≠ '\n' := hbreak
    rw [hsize, List.take_succ_cons]
    refine (ih h).imp (fun hrest => ?_) getLast?_cons_of_eq
    rw [isQuotable_cons hslash, hrest]
    simp [hother, hline]

/-- A quote can stand between quotes only behind a backslash. -/
theorem getLast?_of_isQuotable {quote : Char} (hslash : quote ≠ '\\') {inner : List Char}
    (h : isQuotable quote (inner ++ [quote]) = true) : inner.getLast? = some '\\' := by
  have hquote : isQuotable quote [quote] = false := by
    rw [isQuotable_cons hslash]
    simp
  fun_induction isQuotable quote inner with
  | case1 =>
    rw [List.nil_append, hquote] at h
    cases h
  | case2 => rfl
  | case3 c rest ih => exact getLast?_cons_of_eq (getLast?_cons_of_eq (ih h))
  | case4 c rest hend hescape ih =>
    have hrest : isQuotable quote (rest ++ [quote]) = true := by
      rw [List.cons_append, isQuotable_cons (ne_backslash hend hescape), Bool.and_eq_true] at h
      exact h.2
    exact getLast?_cons_of_eq (ih hrest)

namespace QuotedLiteral

/-- What an escape is written with behind its first character can stand anywhere between quotes. -/
theorem Escape.isQuotable_append {after written meaning : List Char}
    (h : Escape after written meaning) (rest : List Char) :
    isQuotable '"' ('\\' :: (written ++ rest)) = isQuotable '"' rest := by
  have hdigits {form : Form} {digits : List Char} (hvalid : ∀ d ∈ digits, form.IsDigit d) :
      isQuotable '"' (digits ++ rest) = isQuotable '"' rest := by
    induction digits with
    | nil => rfl
    | cons d more ih =>
      obtain ⟨hd, hmore⟩ := List.forall_mem_cons.mp hvalid
      have hall (base : Integer.Base) : ∀ d ∈ base.digits, d ≠ '\\' ∧ d ≠ '"' ∧ d ≠ '\n' := by
        refine Integer.forall_mem_of_all ?_
        cases base <;> decide
      obtain ⟨hslash, hquote, hline⟩ := hall form.base d hd.1
      rw [List.cons_append, isQuotable_cons hslash, ih hmore]
      simp [hquote, hline]
  cases h with
  | letter known => rfl
  | lineBreak => rfl
  | @number form digits c names =>
    have hvalid := names.valid
    cases form with
    | octal =>
      obtain ⟨d, more, rfl⟩ := List.exists_cons_of_length_pos names.least
      exact hdigits (List.forall_mem_cons.mp hvalid).2
    | hexadecimal | short | long => exact hdigits hvalid

/-- Where a quote at the end can stand between quotes, a backslash takes it along, and what is in
front of it is not decoded. -/
theorem not_units_of_isQuotable {inner decoded : List Char}
    (h : isQuotable '"' (inner ++ ['"']) = true) : ¬ Units [] inner decoded := by
  intro hunits
  induction hunits with
  | nil => cases h
  | plain unmarked rest ih =>
    rw [List.cons_append, isQuotable_cons unmarked, Bool.and_eq_true] at h
    exact ih h.2
  | escape escape rest ih =>
    rw [List.cons_append, List.append_assoc, escape.isQuotable_append] at h
    exact ih h

/-- Every name between two quotes is decoded. -/
theorem exists_decodeName_iff {text : String} :
    (∃ value, decodeName text = .ok value) ↔
      ∃ inner, text.toList = '\'' :: (inner ++ ['\'']) := by
  rw [decodeName]
  cases hinner : inner? '\'' text with
  | none => exact iff_of_false nofun (inner?_eq_none_iff.mp hinner)
  | some inner => exact iff_of_true ⟨_, rfl⟩ ⟨inner, inner?_eq_some_iff.mp hinner⟩

end QuotedLiteral

/-- What is read as a literal starts with a quote, and is taken up to the end of a literal. -/
theorem scan_quoted {mode : LexMode} {preceding : Kind} {chars : List Char} {quote : Char}
    {fault : LexFault} (h : (scan mode preceding chars).kind.quote? = some (quote, fault)) :
    ∃ rest, chars = quote :: rest ∧
      (scan mode preceding chars).size = (quotedRun quote rest).size + 1 := by
  rcases scan_cases mode preceding chars with hspecial | hordinary
  · obtain ⟨size, -, hfound⟩ | ⟨size, -, hfound⟩ | ⟨-, hfound⟩ := Scan.special?_eq hspecial
    all_goals
      rw [hfound] at h
      cases h
  · generalize scan mode preceding chars = found at h hordinary
    cases hordinary with
    | string rest =>
      obtain ⟨rfl, -⟩ := Prod.mk.inj (Option.some.inj h)
      exact ⟨rest, rfl, Nat.add_comm _ _⟩
    | name rest =>
      obtain ⟨rfl, -⟩ := Prod.mk.inj (Option.some.inj h)
      exact ⟨rest, rfl, Nat.add_comm _ _⟩
    | ended => cases h
    | number starts => cases (Scan.quote?_of_measure chars).symm.trans h
    | word start => cases (Scan.quote?_of_word _).symm.trans h
    | directive directs => cases h
    | symbol noNumber => cases (Scan.quote?_of_symbol chars).symm.trans h

namespace Token

/-- A literal of a text starts with its quote. If it is closed, its quote comes last as well. If it
is left open and a quote comes last, a backslash takes that one along. -/
structure Quotes (token : Token) (quote : Char) : Prop where
  closed : token.isLeftOpen = false → ∃ inner, token.text.toList = quote :: (inner ++ [quote])
  escaped : token.isLeftOpen = true → ∀ inner, token.text.toList = quote :: (inner ++ [quote]) →
    isQuotable quote (inner ++ [quote]) = true

end Token

/-- A quoted literal of a text is left open in front of a line break or the end of the text, or it
is closed by a quote that no backslash takes along. -/
theorem quotes_of_mem_tokenize {text : String} {token : Token} (hmem : token ∈ tokenize text)
    {quote : Char} {fault : LexFault} (hkind : token.kind.quote? = some (quote, fault)) :
    token.Quotes quote := by
  obtain ⟨lexer, hreached, rfl⟩ := exists_reached_of_mem_tokenize hmem
  have hscan : (scan lexer.mode lexer.preceding lexer.toScan).kind.quote? =
      some (quote, fault) := by
    rwa [hreached.placed.kind_eq] at hkind
  obtain ⟨rest, hrest, hsize⟩ := scan_quoted hscan
  have htext : lexer.current.text.toList = quote :: rest.take (quotedRun quote rest).size := by
    rw [hreached.placed.text_eq, Lexer.found, hsize, hrest, List.take_succ_cons]
  have hquote : quote ≠ '\n' ∧ quote ≠ '\\' := by
    unfold Kind.quote? at hkind
    split at hkind
    · cases hkind
      decide
    · cases hkind
      decide
    · cases hkind
  have hopen : lexer.current.isLeftOpen = !(quotedRun quote rest).closed := by
    rw [quotedRun_closed_eq hquote.1 hquote.2, ← htext, Token.isLeftOpen, Token.fault?,
      Kind.faultOf, hkind]
    dsimp only
    split
    · next hclosed =>
      rw [hclosed]
      rfl
    · next hclosed =>
      rw [Bool.eq_false_iff.mpr hclosed]
      rfl
  refine ⟨fun hclosed => ?_, fun hleft inner hinner => ?_⟩
  · rw [hopen, Bool.not_eq_false'] at hclosed
    obtain ⟨inner, htake, -⟩ := exists_of_quotedRun_closed hclosed
    exact ⟨inner, by rw [htext, htake]⟩
  · rw [hopen, Bool.not_eq_true'] at hleft
    obtain ⟨-, htake⟩ := List.cons.inj (htext.symm.trans hinner)
    have hcases := isQuotable_of_quotedRun_open hleft
    rw [htake, List.getLast?_concat, Option.some_inj] at hcases
    exact hcases.resolve_right hquote.2

/-- A string that is left open is not decoded. -/
theorem Token.Quotes.not_decodeString {token : Token} (h : token.Quotes '"')
    (hopen : token.isLeftOpen = true) :
    ¬ ∃ value, QuotedLiteral.decodeString token.text = .ok value := by
  rintro ⟨value, hvalue⟩
  by_cases hinner : ∃ inner, token.text.toList = '"' :: (inner ++ ['"'])
  · obtain ⟨inner, hinner⟩ := hinner
    exact QuotedLiteral.not_units_of_isQuotable (h.escaped hopen inner hinner)
      ((QuotedLiteral.decodeString_eq_ok_iff hinner value).mp hvalue)
  · cases (QuotedLiteral.decodeString_eq_unterminated_iff.mpr hinner).symm.trans hvalue

/-- A name that is left open is decoded exactly if it ends in a quote that a backslash takes along.
-/
theorem Token.Quotes.decodeName_iff {token : Token} (h : token.Quotes '\'')
    (hopen : token.isLeftOpen = true) :
    (∃ value, QuotedLiteral.decodeName token.text = .ok value) ↔
      ∃ front, token.text.toList = '\'' :: (front ++ ['\\', '\'']) := by
  rw [QuotedLiteral.exists_decodeName_iff]
  constructor
  · rintro ⟨inner, hinner⟩
    have hlast := getLast?_of_isQuotable (by decide) (h.escaped hopen inner hinner)
    obtain ⟨front, rfl⟩ := List.getLast?_eq_some_iff.mp hlast
    exact ⟨front, by simpa using hinner⟩
  · rintro ⟨front, hfront⟩
    exact ⟨front ++ ['\\'], by simpa using hfront⟩

/-- The decoders find the closing quote of every literal that is closed. Where a string is left
open, it is not decoded. Where a name is left open, it is decoded exactly if it ends in a quote that
a backslash takes along. -/
theorem closing_quotes_agree (text : String) :
    ∀ token ∈ tokenize text,
      (token.isLeftOpen = true →
        ∃ after, token.StandsBefore text after ∧ (after = [] ∨ after.head? = some '\n')) ∧
      (token.kind = .string →
        (token.isLeftOpen = false →
          QuotedLiteral.decodeString token.text ≠ .error .unterminatedString) ∧
        (token.isLeftOpen = true → ¬ ∃ value, QuotedLiteral.decodeString token.text = .ok value)) ∧
      (token.kind = .nameLiteral →
        (token.isLeftOpen = false →
          QuotedLiteral.decodeName token.text ≠ .error .unterminatedString) ∧
        (token.isLeftOpen = true →
          ((∃ value, QuotedLiteral.decodeName token.text = .ok value) ↔
            ∃ front, token.text.toList = '\'' :: (front ++ ['\\', '\''])))) := by
  intro token hmem
  refine ⟨fun hopen => ?_, fun hkind => ?_, fun hkind => ?_⟩
  · obtain ⟨lexer, hreached, rfl⟩ := exists_reached_of_mem_tokenize hmem
    exact hreached.stops hopen
  · have hquotes : token.Quotes '"' := quotes_of_mem_tokenize hmem (by rw [hkind]; rfl)
    refine ⟨fun hclosed => ?_, hquotes.not_decodeString⟩
    exact mt QuotedLiteral.decodeString_eq_unterminated_iff.mp
      (not_not_intro (hquotes.closed hclosed))
  · have hquotes : token.Quotes '\'' := quotes_of_mem_tokenize hmem (by rw [hkind]; rfl)
    refine ⟨fun hclosed herror => ?_, hquotes.decodeName_iff⟩
    obtain ⟨value, hvalue⟩ := QuotedLiteral.exists_decodeName_iff.mpr (hquotes.closed hclosed)
    cases hvalue.symm.trans herror

/-- A string that ends in a quote, which a backslash takes along. -/
theorem closing_quotes_agree_openString :
    ∃ token ∈ tokenize "\"a\\\"", token.kind = .string ∧ token.isLeftOpen = true ∧
      token.text.toList.getLast? = some '"' ∧
      ¬ ∃ value, QuotedLiteral.decodeString token.text = .ok value := by
  have htoken : ∃ token ∈ tokenize "\"a\\\"", token.kind = .string ∧ token.isLeftOpen = true ∧
      token.text.toList.getLast? = some '"' := by decide +kernel
  obtain ⟨token, hmem, hkind, hopen, hlast⟩ := htoken
  exact ⟨token, hmem, hkind, hopen, hlast,
    ((closing_quotes_agree _ token hmem).2.1 hkind).2 hopen⟩

/-- Such a name is decoded, although it is left open. -/
theorem openName_decoded :
    ∃ token ∈ tokenize "const a='b\\'\n;", token.kind = .nameLiteral ∧ token.isLeftOpen = true ∧
      token.error = some ⟨.unterminatedName, ⟨8, 12⟩⟩ ∧
      QuotedLiteral.decodeName token.text = .ok "b\\" := by
  decide +kernel

end ScriptTree

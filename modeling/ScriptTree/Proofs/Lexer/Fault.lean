import ScriptTree.Proofs.Lexer.Case
import ScriptTree.Proofs.Tiling

/-!
What is wrong with a token. A quoted literal that is left open is a fault of the token itself, which
its characters show. A comment that is left open is a fault of the layout around a token, and only
the end of the text can follow it.
-/

namespace ScriptTree

open Text

/-- A quoted literal ends where it does even if nothing follows it. -/
theorem quotedRun_take (quote : Char) (chars : List Char) :
    quotedRun quote (chars.take (quotedRun quote chars).size) = quotedRun quote chars := by
  fun_induction quotedRun quote chars with
  | case1 => rfl
  | case2 rest => rfl
  | case3 => rfl
  | case4 c rest ih =>
    have hsize : ((quotedRun quote rest).after 2).size = (quotedRun quote rest).size + 2 :=
      Nat.add_comm _ _
    rw [hsize, List.take_succ_cons, List.take_succ_cons, quotedRun, ih]
  | case5 c rest hbreak hlast hescape hquote =>
    rw [List.take_succ_cons, quotedRun_cons _ hbreak (ne_backslash hlast hescape), if_pos hquote]
  | case6 c rest hbreak hlast hescape hquote ih =>
    have hsize : ((quotedRun quote rest).after 1).size = (quotedRun quote rest).size + 1 :=
      Nat.add_comm _ _
    rw [hsize, List.take_succ_cons, quotedRun_cons _ hbreak (ne_backslash hlast hescape),
      if_neg hquote, ih]

namespace Scan

theorem quoted_take (quote : Char) (rest : List Char) (kind : Kind) (fault : LexFault) :
    quoted ((quote :: rest).take (quoted (quote :: rest) quote kind fault).size) quote kind fault =
      quoted (quote :: rest) quote kind fault := by
  have hsize : (quoted (quote :: rest) quote kind fault).size = (quotedRun quote rest).size + 1 :=
    Nat.add_comm _ _
  rw [hsize, List.take_succ_cons, quoted, quoted, List.drop_succ_cons, List.drop_succ_cons,
    List.drop_zero, List.drop_zero, quotedRun_take]

theorem plain_string (preceding : Kind) (rest : List Char) : plain preceding ('"' :: rest) =
    quoted ('"' :: rest) '"' .string .unterminatedString := by
  simp [plain, Number.starts, Number.startsUnsigned_cons, isDigit, isNameStart, isLetter]

theorem plain_name (preceding : Kind) (rest : List Char) : plain preceding ('\'' :: rest) =
    quoted ('\'' :: rest) '\'' .nameLiteral .unterminatedName := by
  simp [plain, Number.starts, Number.startsUnsigned_cons, isDigit, isNameStart, isLetter]

def faultOf (chars : List Char) : Option LexFault :=
  if chars.head? = some '"' then (quoted chars '"' .string .unterminatedString).fault
  else if chars.head? = some '\'' then (quoted chars '\'' .nameLiteral .unterminatedName).fault
  else none

/-- What is wrong with a token can be told from its characters. -/
theorem plain_fault (preceding : Kind) (chars : List Char) :
    (plain preceding chars).fault = faultOf (chars.take (plain preceding chars).size) := by
  cases chars with
  | nil => rfl
  | cons c rest =>
    obtain ⟨size, hsize⟩ := Nat.exists_eq_add_one_of_ne_zero
      (Nat.ne_of_gt (plain_isFull preceding c rest).2)
    have hhead : ((c :: rest).take (plain preceding (c :: rest)).size).head? = some c := by
      rw [hsize, List.take_succ_cons, List.head?_cons]
    rw [faultOf, hhead]
    by_cases hstring : c = '"'
    · subst hstring
      rw [plain_string, quoted_take, if_pos rfl]
    by_cases hname : c = '\''
    · subst hname
      rw [plain_name, quoted_take, if_neg (by decide), if_pos rfl]
    -- no other token can have something wrong with it
    rw [if_neg (by simpa using hstring), if_neg (by simpa using hname)]
    have hsymbol : (symbol (c :: rest)).fault = none := by
      rw [symbol_eq]
      split <;> rfl
    simp only [plain, beq_iff_eq, hstring, hname, if_false]
    split
    · rfl
    split
    · rfl
    split
    · rfl
    · exact hsymbol

end Scan

theorem commentRun_of_open {chars : List Char} (h : (commentRun chars).2 = false) :
    (commentRun chars).1 = chars.length := by
  fun_induction commentRun chars with
  | case1 => rfl
  | case2 rest => cases h
  | case3 c rest hend size closed hrun ih =>
    rw [hrun] at ih
    exact congrArg (· + 1) (ih h)

/-- A comment that is not closed takes all there is. -/
theorem stretch?_of_open {chars : List Char} {stretch : Stretch}
    (h : stretch? chars = some stretch) (hopen : stretch.closed = false) :
    chars.drop stretch.size = [] := by
  unfold stretch? at h
  split at h
  case h_2 rest =>
    obtain rfl := Option.some.inj h
    have hsize := commentRun_of_open hopen
    rw [List.drop_eq_nil_iff]
    simp only [List.length_cons, hsize]
    omega
  case h_6 c rest _ _ _ _ _ =>
    split at h
    · obtain rfl := Option.some.inj h
      cases hopen
    · cases h
  case h_7 => cases h
  all_goals
    obtain rfl := Option.some.inj h
    cases hopen

/-- Layout has one fault only, a comment that the text ends in. -/
theorem fault_of_layout {start : Cursor} {error : LexError}
    (h : (layout start).error = some error) :
    error.fault = .unterminatedComment ∧ (layout start).after.rest = [] := by
  fun_induction layout start with
  | case1 start hs => cases h
  | case2 start stretch hs next span more ih =>
    dsimp only at h
    split at h
    · exact ih h
    · next hopen =>
      obtain rfl := Option.some.inj h
      have hnext : next.rest = [] := stretch?_of_open hs (Bool.eq_false_of_not_eq_true hopen)
      exact ⟨rfl, (isLayout_iff next).mp (hnext ▸ .nil)⟩

def Token.Closed (token : Token) : Prop :=
  token.error.map LexError.fault ≠ some .unterminatedComment

instance (token : Token) : Decidable token.Closed :=
  inferInstanceAs (Decidable (_ ≠ _))

/-- Around a token that lies next to no open comment, the layout is complete on both sides. -/
theorem closed_of_lex {mode : LexMode} {preceding : Kind} {start : Cursor}
    (h : (lex mode preceding start).1.Closed) :
    (layout start).error = none ∧ (layout ((layout start).after.skip
      (scan mode preceding (layout start).after.rest).size)).error = none := by
  let first := (layout start).after
  let found := scan mode preceding first.rest
  have herror : (lex mode preceding start).1.error = ((layout (first.skip found.size)).error <|>
      (found.fault.map (⟨·, ⟨first.offset, (first.skip found.size).offset⟩⟩)) <|>
      (layout start).error) := rfl
  rw [Token.Closed, herror] at h
  have hback : (layout (first.skip found.size)).error = none := by
    cases hcase : (layout (first.skip found.size)).error with
    | none => rfl
    | some error =>
      rw [hcase] at h
      exact absurd (congrArg some (fault_of_layout hcase).1) h
  refine ⟨?_, hback⟩
  cases hcase : (layout start).error with
  | none => rfl
  | some error =>
    -- a comment left open in front leaves no token that something else could be wrong with
    obtain ⟨hfault, hrest⟩ := fault_of_layout hcase
    have hfound : found.fault = none := by
      change (scan mode preceding first.rest).fault = none
      rw [show first.rest = [] from hrest, scan_nil]
      rfl
    rw [hback, hfound, hcase] at h
    exact absurd (congrArg some hfault) h

end ScriptTree

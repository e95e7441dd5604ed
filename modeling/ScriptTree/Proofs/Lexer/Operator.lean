import Mathlib.Data.List.Find
import ScriptTree.Lexer.Scan

/-!
Punctuation and operators as a table of spellings. Deciding on an operator one character after the
other finds the longest spelling of the table at the front of the characters.
-/

namespace ScriptTree

def operators : List (List Char × Kind) :=
  [(['>', '>', '>', '='], .ushrEq),
   (['.', '.', '.'], .ellipsis), (['~', '=', '='], .approxEq), (['<', '<', '='], .shlEq),
   (['<', '>', '='], .ltgteq), (['>', '>', '>'], .ushr), (['>', '>', '='], .shrEq),
   ([':', ':'], .colon2), (['.', '.'], .dot2), (['=', '='], .eq2), (['!', '='], .neq),
   (['<', '<'], .shl), (['<', '='], .lteq), (['>', '>'], .shr), (['>', '='], .gteq),
   (['+', '+'], .plus2), (['+', '='], .plusEq), (['-', '-'], .minus2), (['-', '='], .minusEq),
   (['*', '*'], .star2), (['*', '='], .starEq), (['&', '&'], .amp2), (['&', '='], .ampEq),
   (['|', '|'], .pipe2), (['|', '='], .pipeEq), (['/', '='], .slashEq),
   (['%', '='], .percentEq), (['^', '='], .caretEq),
   (['('], .leftParen), ([')'], .rightParen), (['['], .leftBracket), ([']'], .rightBracket),
   (['{'], .leftBrace), (['}'], .rightBrace), ([';'], .semicolon), ([','], .comma),
   (['?'], .question), ([':'], .colon), (['.'], .dot), (['='], .eq), (['!'], .bang),
   (['~'], .tilde), (['<'], .lt), (['>'], .gt), (['+'], .plus), (['-'], .minus), (['*'], .star),
   (['&'], .amp), (['|'], .pipe), (['/'], .slash), (['%'], .percent), (['^'], .caret)]

def operator? (chars : List Char) : Option (List Char × Kind) :=
  operators.find? fun entry => entry.1.isPrefixOf chars

/-- No spelling stands before a longer one, so the first that fits is the longest. -/
theorem operators_pairwise :
    operators.Pairwise fun a b => b.1.length ≤ a.1.length := by
  decide

theorem operators_pos : ∀ entry ∈ operators, 0 < entry.1.length := by
  decide

theorem operator?_mem {chars spelling : List Char} {kind : Kind}
    (h : operator? chars = some (spelling, kind)) : (spelling, kind) ∈ operators :=
  List.mem_of_find?_eq_some h

/-- The spelling that is found is the longest one at the front of the characters. -/
theorem operator?_longest {chars spelling : List Char} {kind : Kind}
    (h : operator? chars = some (spelling, kind)) :
    spelling <+: chars ∧
      ∀ entry ∈ operators, entry.1 <+: chars → entry.1.length ≤ spelling.length := by
  obtain ⟨hfits, front, back, htable, hearlier⟩ := List.find?_eq_some_iff_append.mp h
  refine ⟨List.isPrefixOf_iff_prefix.mp hfits, ?_⟩
  intro entry hmem hstarts
  -- no entry in front of the one that is found fits, and those behind it are not longer
  have hordered := operators_pairwise
  rw [htable, List.pairwise_append, List.pairwise_cons] at hordered
  rw [htable] at hmem
  rcases List.mem_append.mp hmem with hmem | hmem
  · have hno := hearlier entry hmem
    rw [List.isPrefixOf_iff_prefix.mpr hstarts] at hno
    cases hno
  rcases List.mem_cons.mp hmem with rfl | hmem
  · exact Nat.le_refl _
  · exact hordered.2.1.1 entry hmem

/-- No operator is found at a character that none starts with. -/
theorem operator?_eq_none_of_head {c : Char} (h : ∀ entry ∈ operators, entry.1.head? ≠ some c)
    (rest : List Char) : operator? (c :: rest) = none := by
  refine List.find?_eq_none.mpr fun entry hentry hfits => h entry hentry ?_
  obtain ⟨d, more, hspelling⟩ := List.exists_cons_of_length_pos (operators_pos entry hentry)
  rw [hspelling] at hfits ⊢
  rw [(List.cons_prefix_cons.mp (List.isPrefixOf_iff_prefix.mp hfits)).1]
  rfl

/-- The decisions on the characters come out at the longest spelling in the table. -/
theorem operatorAt_eq (c : Char) (rest : List Char) :
    operatorAt c rest = match operator? (c :: rest) with
      | some (spelling, kind) => (kind, spelling.length)
      | none => (.unknown, 1) := by
  unfold operatorAt
  split
  case h_25 =>
    -- the character is none of those above, and these are all that operators start with
    have hfirst : ∀ entry ∈ operators, entry.1.head? ≠ some c := by
      simp only [operators, List.forall_mem_cons, List.head?_cons, ne_eq, Option.some.injEq]
      grind
    rw [operator?_eq_none_of_head hfirst]
  -- of the table only the spellings with this first character are left, at most five
  all_goals
    simp only [operator?, operators, List.find?_cons, List.isPrefixOf_cons_cons, compound, assignOr,
      eats, Char.reduceBEq, Bool.false_and, Bool.true_and, List.isPrefixOf_nil_left]
  -- and none of them has more than three characters behind the first
  all_goals
    rcases rest with _ | ⟨d, _ | ⟨e, _ | ⟨f, rest⟩⟩⟩ <;> simp <;> grind

theorem Scan.symbol_eq (chars : List Char) :
    symbol chars = match operator? chars with
      | some (spelling, kind) => sound kind spelling.length
      | none => sound .unknown 1 := by
  cases chars with
  | nil => rfl
  | cons c rest =>
    simp only [symbol, operatorAt_eq]
    split <;> rfl

end ScriptTree

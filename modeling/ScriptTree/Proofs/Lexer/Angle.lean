import Mathlib.Data.List.Find
import ScriptTree.Proofs.Lexer.Case
import ScriptTree.Proofs.Lexer.Shift

/-!
Runs of `>` and `=`. An operator that starts with one of these characters has no others. So how the
front of such a run is read depends on the run alone, and not on what follows it.
-/

namespace ScriptTree

open Text

def isAngle (c : Char) : Bool :=
  c == '>' || c == '='

theorem eq_of_isAngle {c : Char} (h : isAngle c = true) : c = '>' ∨ c = '=' := by
  simpa [isAngle] using h

theorem exists_cons_of_angle {chars : List Char} (h : chars.head?.any isAngle = true) :
    ∃ c rest, chars = c :: rest ∧ isAngle c = true := by
  cases chars with
  | nil => cases h
  | cons c rest => exact ⟨c, rest, rfl, h⟩

/-- An operator that starts with such a character has no others, and no operand ends with it. -/
theorem operators_angle : ∀ entry ∈ operators, entry.1.head?.any isAngle = true →
    entry.1.all isAngle = true ∧ entry.2.endsOperand = false := by
  decide

/-- Such an operator does not reach beyond a run of these characters. -/
theorem isPrefix_run_iff {spelling run after : List Char} (hspelling : spelling.all isAngle = true)
    (hafter : after.head?.any isAngle = false) : spelling <+: run ++ after ↔ spelling <+: run := by
  refine ⟨fun h => ?_, fun h => h.trans (List.prefix_append run after)⟩
  rcases List.prefix_or_prefix_of_prefix h (List.prefix_append run after) with h' | ⟨more, rfl⟩
  · exact h'
  · -- what the spelling has beyond the run stands in front of what follows
    obtain ⟨rest, rfl⟩ := (List.prefix_append_right_inj run).mp h
    cases more with
    | nil => simp
    | cons c more => simp_all

/-- What follows a run of angle brackets is not looked at. -/
theorem operator?_run {run after : List Char} (hrun : run.all isAngle = true) (hne : run ≠ [])
    (hafter : after.head?.any isAngle = false) : operator? (run ++ after) = operator? run := by
  refine List.find?_congr fun entry hentry => ?_
  obtain ⟨c, spelling, hspelling⟩ :=
    List.exists_cons_of_length_pos (operators_pos entry hentry)
  obtain ⟨d, tail, rfl⟩ := List.exists_cons_of_ne_nil hne
  by_cases hc : isAngle c = true
  · have hangle := (operators_angle entry hentry (by simpa [hspelling] using hc)).1
    rw [Bool.eq_iff_iff, List.isPrefixOf_iff_prefix, List.isPrefixOf_iff_prefix,
      isPrefix_run_iff hangle hafter]
  · have hd : isAngle d = true := by simp_all
    have hcd : (c == d) = false := by
      rw [beq_eq_false_iff_ne]
      rintro rfl
      exact hc hd
    simp [hspelling, List.isPrefixOf_cons_cons, hcd]

namespace Scan

theorem plain_angle {c : Char} (h : isAngle c = true) (preceding : Kind) (rest : List Char) :
    plain preceding (c :: rest) = symbol (c :: rest) := by
  rcases eq_of_isAngle h with rfl | rfl <;>
    simp [plain, Number.starts, Number.startsUnsigned_cons, isDigit, isNameStart, isLetter,
      atInclude]

/-- In a run of these characters, the token in front depends on the run only and stays in it. -/
theorem plain_run {run after : List Char} (hrun : run.all isAngle = true) (hne : run ≠ [])
    (hafter : after.head?.any isAngle = false) (preceding : Kind) :
    plain preceding (run ++ after) = symbol run ∧ (symbol run).size ≤ run.length ∧
      (symbol run).kind.endsOperand = false := by
  have hsymbol : symbol (run ++ after) = symbol run := by
    rw [symbol_eq, operator?_run hrun hne hafter, symbol_eq]
  obtain ⟨c, tail, rfl⟩ := List.exists_cons_of_ne_nil hne
  have hc : isAngle c = true := by simp_all
  refine ⟨(plain_angle hc preceding (tail ++ after)).trans hsymbol, ?_⟩
  rw [symbol_eq]
  split
  · next spelling kind hop =>
    have hmem := operator?_mem hop
    have hfits : spelling <+: c :: tail :=
      List.isPrefixOf_iff_prefix.mp (List.find?_some hop :)
    obtain ⟨d, more, rfl⟩ := List.exists_cons_of_length_pos (operators_pos _ hmem)
    obtain rfl := (List.cons_prefix_cons.mp hfits).1
    exact ⟨hfits.length_le, (operators_angle _ hmem hc).2⟩
  · exact ⟨Nat.succ_le_of_lt (List.length_pos_of_ne_nil hne), rfl⟩

end Scan

theorem scan_angle {chars : List Char} (h : chars.head? = some '>') (preceding : Kind) :
    scan .angle preceding chars = .sound .gt 1 := by
  rw [scan, Scan.special?, if_pos (by rw [h]; rfl)]
  rfl

theorem scan_angle_of_ne {chars : List Char} (h : chars.head? ≠ some '>') (preceding : Kind) :
    scan .angle preceding chars = scan .plain preceding chars := by
  rw [scan, Scan.special?, if_neg (by simpa using h)]
  rfl

theorem layout_angle {start : Cursor} (h : start.rest.head?.any isAngle = true) :
    layout start = ⟨[], none, start⟩ := by
  obtain ⟨c, rest, hrest, hc⟩ := exists_cons_of_angle h
  refine layout_of_none ?_
  rw [hrest]
  rcases eq_of_isAngle hc with rfl | rfl
  · rfl
  · rfl

/-- A token that starts with `>` or `=` has no other characters. -/
theorem Cursor.peek_angle {a : Cursor} (h : a.rest.head?.any isAngle = true) (preceding : Kind) :
    (a.peek (scan .plain preceding a.rest).size).all isAngle = true ∧
      (scan .plain preceding a.rest).kind.endsOperand = false := by
  let run := a.rest.takeWhile isAngle
  let after := a.rest.dropWhile isAngle
  have hsplit : a.rest = run ++ after := List.takeWhile_append_dropWhile.symm
  have hrun : run.all isAngle = true := List.all_takeWhile
  have hne : run ≠ [] := by
    obtain ⟨c, rest, hrest, hc⟩ := exists_cons_of_angle h
    simp only [run, hrest, List.takeWhile_cons, hc, if_true]
    exact List.cons_ne_nil _ _
  have hafter : after.head?.any isAngle = false := by
    have hhead := List.head?_dropWhile_not isAngle a.rest
    cases hcase : after.head? with
    | none => rfl
    | some c =>
      rw [show (a.rest.dropWhile isAngle).head? = some c from hcase] at hhead
      exact hhead
  obtain ⟨hplain, hsize, hends⟩ := Scan.plain_run hrun hne hafter preceding
  have hscan : scan .plain preceding a.rest = Scan.symbol run := by
    rw [hsplit]
    exact hplain
  rw [hscan, Cursor.peek, hsplit, List.take_append_of_le_length hsize]
  refine ⟨?_, hends⟩
  rw [List.all_eq_true] at hrun ⊢
  exact fun c hc => hrun c (List.mem_of_mem_take hc)

end ScriptTree

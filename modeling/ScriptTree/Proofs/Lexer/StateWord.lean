import ScriptTree.Proofs.Lexer.Approach
import ScriptTree.Proofs.Lexer.Bare
import ScriptTree.Proofs.Lexer.Sign
import ScriptTree.Proofs.Lexer.WordEnd
import ScriptTree.Proofs.StateWords

/-!
The words of a state line in ordinary reading.
-/

namespace ScriptTree

open Text

theorem Cursor.Passes.eq_skip {a b : Cursor} {run : List Char} (h : a.Passes run b) :
    b = a.skip run.length := by
  obtain ⟨hrest, hoffset⟩ := h
  rw [Cursor.skip, Cursor.peek, hrest, List.take_left, List.drop_left, ← hoffset]

theorem Cursor.skip_skip (cursor : Cursor) (first second : Nat) :
    (cursor.skip first).skip second = cursor.skip (first + second) := by
  simp only [Cursor.skip, Cursor.peek, List.take_add, byteCount_append, List.drop_drop,
    Nat.add_assoc]

theorem after_of_some {start : Cursor} {stretch : Stretch}
    (h : stretch? start.rest = some stretch) :
    (layout start).after = (layout (start.skip stretch.size)).after := by
  rw [layout_of_some h]

namespace Lexer

/-- Ordinary reading comes to a position through tokens that are neither semicolons nor braces. -/
inductive ComesTo (goal : Cursor) : Lexer → Prop where
  | here {lexer : Lexer} (place : (layout lexer.start).after = goal) : ComesTo goal lexer
  | token {lexer : Lexer} (kind : lexer.current.kind ∉ [Kind.semicolon, .leftBrace, .rightBrace])
      (rest : ComesTo goal lexer.advance) : ComesTo goal lexer

def RunsOver (stop : Cursor) (lexer : Lexer) : Prop :=
  ∃ (front : Cursor) (c : Char) (run : List Char), lexer.ComesTo front ∧
    front.Passes (c :: run) stop ∧ isDigit c = true ∧ (∀ d ∈ c :: run, isWordPart d = true) ∧
      (c :: run).length < (Number.unsigned front.rest).1

variable {goal stop a : Cursor} {lexer : Lexer} {run : List Char}

theorem ComesTo.congr {lexer' : Lexer} (h : lexer.ComesTo goal)
    (hstart : (layout lexer'.start).after = (layout lexer.start).after)
    (hkind : lexer'.current.kind = lexer.current.kind)
    (hnext : lexer'.next = lexer.next) : lexer'.ComesTo goal := by
  cases h with
  | here place => exact .here (hstart.trans place)
  | token kind rest =>
    have hadvance : lexer'.advance = lexer.advance := by
      rw [advance, advance, hkind, hnext]
    exact .token (hkind ▸ kind) (hadvance ▸ rest)

/-- Layout in front of a token does not matter. -/
theorem comesTo_layout {preceding : Kind} :
    (place (layout a).after .plain preceding).ComesTo goal ↔
      (place a .plain preceding).ComesTo goal := by
  have hlayout : layout (layout a).after = ⟨[], none, (layout a).after⟩ :=
    layout_of_none (stretch?_layout a)
  have hstart : (layout (place (layout a).after .plain preceding).start).after =
      (layout (place a .plain preceding).start).after := by
    show (layout (layout a).after).after = (layout a).after
    rw [hlayout]
  have hlex : (lex .plain preceding (layout a).after).1.kind = (lex .plain preceding a).1.kind ∧
      (lex .plain preceding (layout a).after).2 = (lex .plain preceding a).2 := by
    simp only [lex, hlayout, and_self]
  exact ⟨fun h => h.congr hstart.symm hlex.1.symm hlex.2.symm,
    fun h => h.congr hstart hlex.1 hlex.2⟩

/-- A character of a word starts no layout, unless the word ends with it and layout goes on. -/
theorem layout_wordPart {c : Char} (hc : isWordPart c = true)
    (hrun : ∀ d ∈ run, isWordPart d = true) (ha : a.Passes (c :: run) stop) :
    layout a = ⟨[], none, a⟩ ∨ (layout a).after = (layout stop).after := by
  have hsolid {d : Char} (hd : isWordPart d = true) :
      d ≠ '/' ∧ d ≠ '\n' ∧ d ≠ '\r' ∧ isBlank d = false :=
    @of_isWordPart (fun d => d ≠ '/' ∧ d ≠ '\n' ∧ d ≠ '\r' ∧ isBlank d = false)
      (by decide +kernel) d hd
  obtain ⟨hslash, -, -, hblank⟩ := hsolid hc
  by_cases hback : c = '\\'
  · subst hback
    cases run with
    | nil =>
      -- the backslash may go on a line, and so much layout stands behind it anyway
      obtain rfl := ha.eq_skip
      have hrest : a.rest = '\\' :: (a.skip 1).rest := ha.1
      cases hnone : stretch? a.rest with
      | none => exact Or.inl (layout_of_none hnone)
      | some stretch =>
        refine Or.inr ((after_of_some hnone).trans ?_)
        rw [hrest] at hnone
        unfold stretch? at hnone
        split at hnone
        case h_4 more heq =>
          obtain rfl := Option.some.inj hnone
          have hline : stretch? (a.skip 1).rest = some ⟨.newline, 1, true⟩ := by
            rw [(List.cons.inj heq).2]
            rfl
          exact (a.skip_skip 1 1 ▸ after_of_some hline).symm
        case h_5 more heq =>
          obtain rfl := Option.some.inj hnone
          have hreturn : stretch? (a.skip 1).rest = some ⟨.whitespace, 1, true⟩ := by
            rw [(List.cons.inj heq).2]
            rfl
          have hline : stretch? ((a.skip 1).skip 1).rest = some ⟨.newline, 1, true⟩ := by
            rw [Cursor.skip, (List.cons.inj heq).2]
            rfl
          refine ((after_of_some hreturn).trans ((after_of_some hline).trans ?_)).symm
          rw [a.skip_skip, a.skip_skip]
          rfl
        case h_6 d more _ _ _ _ _ heq =>
          obtain ⟨rfl, -⟩ := List.cons.inj heq
          rw [if_neg (by decide)] at hnone
          cases hnone
        case h_7 => next heq => cases heq
        all_goals
          next heq => exact absurd (List.cons.inj heq).1 (by decide)
    | cons d run =>
      obtain ⟨-, hnewline, hreturn, -⟩ := hsolid (hrun d List.mem_cons_self)
      refine Or.inl (layout_of_none ?_)
      have hbackslash : isBlank '\\' = false := by decide
      rw [ha.1]
      simp [stretch?, hnewline, hreturn, hbackslash]
  · refine Or.inl (layout_of_none ?_)
    rw [ha.1]
    exact stretch?_of_solid ⟨hslash, hback, hblank⟩ _

/-- Ordinary reading of the characters of a word comes to their end, or a number goes on there. -/
theorem comesTo_or_runsOver (hrun : ∀ c ∈ run, isWordPart c = true)
    (hstop : stop.rest.head?.any isNamePart = false) (ha : a.Passes run stop) (preceding : Kind) :
    (place a .plain preceding).ComesTo (layout stop).after ∨
      (place a .plain preceding).RunsOver stop := by
  induction hlength : run.length using Nat.strong_induction_on generalizing run a preceding with
  | _ length ih =>
  cases run with
  | nil =>
    obtain rfl := ha.eq_of_nil
    exact Or.inl (.here rfl)
  | cons c run =>
    obtain ⟨hc, hmore⟩ := List.forall_mem_cons.mp hrun
    rcases layout_wordPart hc hmore ha with hlayout | hlayout
    · let found := Scan.plain preceding a.rest
      have hscan : scan .plain preceding (layout a).after.rest = found := by
        rw [hlayout]
        rfl
      have hkind : (place a .plain preceding).current.kind = found.kind :=
        congrArg Scan.kind hscan
      have hnext : (place a .plain preceding).next = (layout (a.skip found.size)).after := by
        rw [show (place a .plain preceding).next = (layout ((layout a).after.skip
          (scan .plain preceding (layout a).after.rest).size)).after from rfl, hscan, hlayout]
      have hne : a.rest ≠ [] := by
        rw [ha.1]
        exact List.cons_ne_nil _ _
      have hpos : 0 < found.size := (scan_isFull .plain preceding hne).2
      obtain ⟨hends, hsize⟩ :=
        (Scan.ordinary_plain preceding a.rest).ends_of_wordPart ha.1 hc hstop
      change found.size ≤ (c :: run).length ∨ _ at hsize
      rcases hsize with hsize | ⟨hdigit, hover⟩
      · -- behind the token there are fewer characters of the word
        have hshort : ((c :: run).drop found.size).length < length := by
          rw [List.length_drop]
          omega
        have hbehind := ih _ hshort (fun d hmem => hrun d (List.mem_of_mem_drop hmem))
          (ha.skip hsize) found.kind rfl
        have hstep {goal : Cursor}
            (h : (place (a.skip found.size) .plain found.kind).ComesTo goal) :
            (place a .plain preceding).ComesTo goal := by
          refine .token (hkind ▸ hends) ?_
          rw [advance, hkind, hnext]
          exact comesTo_layout.mpr h
        rcases hbehind with hcomes | ⟨front, d, more, hcomes, hover⟩
        · exact Or.inl (hstep hcomes)
        · exact Or.inr ⟨front, d, more, hstep hcomes, hover⟩
      · refine Or.inr ⟨a, c, run, .here ?_, ha, hdigit, hrun, hover⟩
        rw [show (place a .plain preceding).start = a from rfl, hlayout]
    · exact Or.inl (.here hlayout)

/-- Behind a position that ordinary reading comes to, it goes on from there. -/
theorem ComesTo.exists_preceding (h : lexer.ComesTo goal)
    (hplain : lexer = place lexer.start .plain lexer.preceding) :
    ∃ preceding, ∀ later, (place goal .plain preceding).ComesTo later → lexer.ComesTo later := by
  induction h with
  | @here lexer place =>
    refine ⟨lexer.preceding, fun later h => ?_⟩
    rw [hplain]
    exact comesTo_layout.mp (place ▸ h)
  | token kind rest ih =>
    obtain ⟨preceding, hbehind⟩ := ih rfl
    exact ⟨preceding, fun later h => .token kind (hbehind later h)⟩

/-- Ordinary reading runs over the end of a word only into a number: with a point, a separator, or a
sign behind the letter of an exponent. -/
theorem RunsOver.exists_mark (h : lexer.RunsOver stop)
    (hstop : stop.rest.head?.any isNamePart = false) :
    ∃ mark rest, stop.rest = mark :: rest ∧ mark ∈ ['.', '\'', '+', '-'] := by
  obtain ⟨front, c, run, -, hpasses, hdigit, -, hover⟩ := h
  cases hrest : stop.rest with
  | nil =>
    have hle := Number.unsigned_le front.rest
    rw [hpasses.1, hrest, List.append_nil] at hle hover
    omega
  | cons mark rest =>
    have hpart :=
      Number.isPart_of_unsigned (Number.startsUnsigned_of_isDigit hdigit (run ++ stop.rest))
    rw [← List.cons_append, ← hpasses.1] at hpart
    rw [hrest] at hstop
    have hmark : Number.isPart mark = true := by
      by_contra hmark
      rw [hpasses.1, hrest] at hpart hover
      exact absurd (le_length_of_take hpart hmark) (Nat.not_le.mpr hover)
    refine ⟨mark, rest, rfl, ?_⟩
    rw [Number.isPart, show isNamePart mark = false from hstop, Bool.false_or,
      List.contains_iff_mem] at hmark
    exact hmark

/-- No layout stands in front of a number. -/
theorem layout_unsigned (h : Number.startsUnsigned a.rest = true) : layout a = ⟨[], none, a⟩ := by
  obtain ⟨c, rest, hrest, hc⟩ := Number.exists_of_startsUnsigned h
  refine layout_of_none (hrest ▸ stretch?_of_solid ?_ rest)
  rcases hc with hdigit | rfl
  · exact @of_isDigit IsSolid _ (by decide) c hdigit
  · decide

/-- A number without a sign, read in the ordinary way. -/
theorem place_unsigned (h : Number.startsUnsigned a.rest = true) (preceding : Kind) :
    (place a .plain preceding).current.kind = (Number.unsigned a.rest).2 ∧
      (place a .plain preceding).next = (layout (a.skip (Number.unsigned a.rest).1)).after := by
  have hscan : scan .plain preceding (layout a).after.rest =
      .sound (Number.unsigned a.rest).2 (Number.unsigned a.rest).1 := by
    rw [layout_unsigned h]
    exact Scan.plain_unsigned h preceding
  refine ⟨congrArg Scan.kind hscan, ?_⟩
  rw [show (place a .plain preceding).next = (layout ((layout a).after.skip
    (scan .plain preceding (layout a).after.rest).size)).after from rfl, hscan, layout_unsigned h]
  rfl

end Lexer

namespace Watch

variable {watch : Watch} {goal stop a : Cursor} {offset : Nat} {lexer : Lexer}

structure IsOpen (watch : Watch) : Prop where
  bars : watch.bars = false
  stop : watch.stop ∈ [Kind.semicolon, .leftBrace, .rightBrace]
  allows : ∀ kind ∉ [Kind.semicolon, .leftBrace, .rightBrace, .eof],
    watch.allowed.contains kind = true

/-- Where ordinary reading comes to, the stop is still ahead. -/
theorem Nears.of_comesTo (hopen : watch.IsOpen) (h : lexer.ComesTo goal)
    (hplain : lexer = .place lexer.start .plain lexer.preceding)
    (hnears : watch.Nears offset lexer) :
    ∃ preceding, watch.Nears offset (.place goal .plain preceding) := by
  induction h with
  | @here lexer place =>
    rw [hplain] at hnears
    exact ⟨lexer.preceding, place ▸ hnears.of_layout⟩
  | token kind rest ih =>
    cases hnears with
    | stop hkind _ => exact absurd (hkind ▸ hopen.stop) kind
    | step _ _ hrest => exact ih rfl hrest

/-- A number is not the stop. -/
theorem IsOpen.number (hopen : watch.IsOpen) (chars : List Char) :
    (Number.unsigned chars).2 ≠ watch.stop ∧
      watch.allowed.contains (Number.unsigned chars).2 = true := by
  have hkinds : ∀ kind ∈ [Kind.floatNumber, .intNumber],
      kind ∉ [Kind.semicolon, .leftBrace, .rightBrace, .eof] := by decide
  have hkind : (Number.unsigned chars).2 ∈ [Kind.floatNumber, .intNumber] := by
    simpa using Number.unsigned_kind chars
  have hallowed := hopen.allows _ (hkinds _ hkind)
  refine ⟨?_, hallowed⟩
  intro hstop
  rw [hstop, watch.stop_not_allowed] at hallowed
  cases hallowed

theorem Nears.step_of_isOpen (hopen : watch.IsOpen)
    (hkind : watch.allowed.contains lexer.current.kind = true)
    (h : watch.Nears offset lexer.advance) : watch.Nears offset lexer :=
  .step hkind (fun hbars => absurd (hopen.bars.symm.trans hbars) Bool.noConfusion) h

theorem Nears.advance (h : watch.Nears offset lexer)
    (hkind : lexer.current.kind ≠ watch.stop) : watch.Nears offset lexer.advance := by
  cases h with
  | stop kind _ => exact absurd kind hkind
  | step _ _ rest => exact rest

/-- A stop that a number runs over is not behind the one that is watched for. -/
theorem Nears.le_of_runsOver (hopen : watch.IsOpen) (h : lexer.RunsOver stop)
    (hplain : lexer = .place lexer.start .plain lexer.preceding)
    (hnears : watch.Nears offset lexer) : stop.offset ≤ offset := by
  obtain ⟨front, c, run, hcomes, hpasses, hdigit, -, hover⟩ := h
  obtain ⟨preceding, hfront⟩ := hnears.of_comesTo hopen hcomes hplain
  have hstarts : Number.startsUnsigned front.rest = true := by
    rw [hpasses.1]
    exact Number.startsUnsigned_of_isDigit hdigit _
  obtain ⟨hkind, hnext⟩ := Lexer.place_unsigned hstarts preceding
  have hbehind := hfront.advance (hkind ▸ (hopen.number front.rest).1)
  let size := (Number.unsigned front.rest).1
  have hle : stop.offset ≤ (front.skip size).offset := by
    have hskip := stop.passes_skip (size - (c :: run).length)
    rw [hpasses.eq_skip, Cursor.skip_skip, Nat.add_sub_of_le (Nat.le_of_lt hover)] at hskip
    rw [hpasses.eq_skip]
    exact hskip.offset_le
  obtain ⟨chars, hlayout⟩ := (layout_laid (front.skip size)).passes
  calc
    stop.offset ≤ (front.skip size).offset := hle
    _ ≤ (layout (front.skip size)).after.offset := hlayout.offset_le
    _ = (Lexer.place front .plain preceding).advance.start.offset := by rw [← hnext]; rfl
    _ ≤ (Lexer.place front .plain preceding).advance.current.span.start :=
      (Lexer.advance_placed _).span_start.1
    _ ≤ offset := hbehind.le (Lexer.advance_placed _)

/-- An allowed token is not the stop, and the stop is behind it. -/
theorem IsOpen.nears_iff (hopen : watch.IsOpen)
    (hkind : watch.allowed.contains lexer.current.kind = true) :
    watch.Nears offset lexer ↔ watch.Nears offset lexer.advance := by
  refine ⟨fun h => h.advance ?_, .step_of_isOpen hopen hkind⟩
  intro hstop
  rw [hstop, watch.stop_not_allowed] at hkind
  cases hkind

/-- Only the lookahead and the next token matter. -/
theorem Nears.congr_of_isOpen {lexer' : Lexer} (hopen : watch.IsOpen) (h : watch.Nears offset lexer)
    (hcurrent : lexer'.current = lexer.current) (hnext : lexer'.next = lexer.next) :
    watch.Nears offset lexer' := by
  have hadvance : lexer'.advance = lexer.advance := by
    rw [Lexer.advance, Lexer.advance, hcurrent, hnext]
  cases h with
  | stop kind place => exact .stop (hcurrent ▸ kind) (hcurrent ▸ place)
  | step kind _ rest => exact .step_of_isOpen hopen (hcurrent ▸ kind) (hadvance ▸ rest)

/-- Whether a sign in front of a number belongs to it or not, the stop is behind the number. -/
theorem nears_sign (hopen : watch.IsOpen) {sign : Char} {kind : Kind} {chars : List Char}
    (hrest : (layout a).after.rest = sign :: chars) (hsign : signOperator? sign = some kind)
    (hstarts : Number.startsUnsigned chars = true) (preceding : Kind) :
    watch.Nears offset (.place a .plain preceding) ↔
      watch.Nears offset (.place (layout ((layout a).after.skip
        (1 + (Number.unsigned chars).1))).after .plain (Number.unsigned chars).2) := by
  let front := (layout a).after
  have hplain : scan .plain preceding front.rest = _ :=
    hrest ▸ Scan.plain_sign hsign hstarts preceding
  have hchars : (front.skip 1).rest = chars := by
    show front.rest.drop 1 = chars
    rw [hrest]
    rfl
  have hplace : (Lexer.place a .plain preceding).current.kind =
        (scan .plain preceding front.rest).kind ∧
      (Lexer.place a .plain preceding).next =
        (layout (front.skip (scan .plain preceding front.rest).size)).after := ⟨rfl, rfl⟩
  obtain ⟨hkind, hnext⟩ := hplace
  have hnumber := (hopen.number chars).2
  rw [hplain] at hkind hnext
  cases hends : preceding.endsOperand with
  | false =>
    rw [hends] at hkind hnext
    rw [hopen.nears_iff (hkind ▸ hnumber), Lexer.advance, hkind, hnext]
    rfl
  | true =>
    rw [hends] at hkind hnext
    have hsigns : watch.allowed.contains kind = true := by
      apply hopen.allows
      rcases signOperator?_eq_some hsign with ⟨-, rfl⟩ | ⟨-, rfl⟩ <;> decide
    have hbehind : Number.startsUnsigned (front.skip 1).rest = true := hchars.symm ▸ hstarts
    obtain ⟨hkind', hnext'⟩ := Lexer.place_unsigned hbehind kind
    rw [hchars] at hkind' hnext'
    rw [hopen.nears_iff (hkind ▸ hsigns), Lexer.advance, hkind, hnext]
    simp only [Scan.sound, if_true, Lexer.layout_unsigned hbehind]
    rw [hopen.nears_iff (hkind' ▸ hnumber), Lexer.advance, hkind', hnext', Cursor.skip_skip]

/-- What stands in front of a position decides at most whether a sign belongs to a number, and not
where the stop is. -/
theorem Nears.of_preceding (hopen : watch.IsOpen) {preceding : Kind} (preceding' : Kind)
    (h : watch.Nears offset (.place a .plain preceding)) :
    watch.Nears offset (.place a .plain preceding') := by
  rcases Scan.plain_congr_or_sign preceding' preceding (layout a).after.rest with
    hsame | ⟨sign, kind, chars, hrest, hsign, hstarts⟩
  · have hlex : lex .plain preceding' a = lex .plain preceding a := by
      simp only [lex, scan, Scan.special?, Option.getD_none, hsame]
    exact h.congr_of_isOpen hopen (congrArg Prod.fst hlex) (congrArg Prod.snd hlex)
  · exact (nears_sign hopen hrest hsign hstarts preceding').mpr
      ((nears_sign hopen hrest hsign hstarts preceding).mp h)

end Watch

end ScriptTree

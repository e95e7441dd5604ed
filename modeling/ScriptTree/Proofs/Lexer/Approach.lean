import ScriptTree.Proofs.Kind.Set
import ScriptTree.Proofs.Lexer.Abreast

/-!
The way to a stop. Some kind of token is watched for, and ordinary reading comes to the first such
token through tokens of other kinds. Reading `>` on its own on the way changes the tokens of a run
of `>` and `=`, but not where the run ends, so the stop is still the same.
-/

namespace ScriptTree

open Text

def angleKinds : KindSet :=
  .ofList [.gt, .shr, .ushr, .gteq, .shrEq, .ushrEq, .eq, .eq2]

/-- A kind of token to watch for, and the kinds of the tokens that may stand before it. Operators
made of `>` and `=` may always stand there, and the end of the text never. `bars` says that no
opening brace may follow an `=`. -/
structure Watch where
  stop : Kind
  allowed : KindSet
  bars : Bool
  stop_not_allowed : allowed.contains stop = false
  eof_not_allowed : allowed.contains .eof = false
  angles_allowed : angleKinds.isSubset allowed = true

/-- The lookahead is an `=`. Behind another operator it may be all that is left of a longer one, and
it is none then. -/
def Lexer.Assigns (lexer : Lexer) : Prop :=
  lexer.current.kind = .eq ∧ angleKinds.contains lexer.preceding = false

inductive Watch.Nears (watch : Watch) (offset : Nat) : Lexer → Prop where
  | stop {lexer : Lexer} (kind : lexer.current.kind = watch.stop)
      (place : lexer.current.span.start = offset) : watch.Nears offset lexer
  | step {lexer : Lexer} (kind : watch.allowed.contains lexer.current.kind = true)
      (brace : watch.bars = true → lexer.Assigns → lexer.advance.current.kind ≠ .leftBrace)
      (rest : watch.Nears offset lexer.advance) : watch.Nears offset lexer

/-- Operators made of `>` and `=` are of the kinds above, and only `=` is an `=`. -/
theorem operators_angle_kind : ∀ entry ∈ operators, entry.1.head?.any isAngle = true →
    angleKinds.contains entry.2 = true ∧ (entry.2 = .eq → entry.1 = ['=']) := by
  decide

/-- The first operator of a run of `>` and `=`. -/
theorem Scan.symbol_angle {run : List Char} (hrun : run.all isAngle = true) (hne : run ≠ []) :
    angleKinds.contains (symbol run).kind = true ∧
      ((symbol run).size = run.length → (symbol run).kind = .eq → run = ['=']) := by
  obtain ⟨c, rest, rfl⟩ := List.exists_cons_of_ne_nil hne
  have hc : isAngle c = true := by simp_all
  rw [symbol_eq]
  split
  · next spelling kind hop =>
    have hmem := operator?_mem hop
    have hfits : spelling <+: c :: rest :=
      List.isPrefixOf_iff_prefix.mp (List.find?_some hop :)
    obtain ⟨d, more, rfl⟩ := List.exists_cons_of_length_pos (operators_pos _ hmem)
    obtain rfl := (List.cons_prefix_cons.mp hfits).1
    obtain ⟨hangle, hequals⟩ := operators_angle_kind _ hmem hc
    refine ⟨hangle, fun hlength hkind => ?_⟩
    rw [← hfits.eq_of_length hlength]
    exact hequals hkind
  · next hop =>
    -- both characters are operators on their own
    have hnone := List.find?_eq_none.mp hop
    rcases eq_of_isAngle hc with rfl | rfl
    · exact absurd rfl (hnone (['>'], .gt) (by decide))
    · exact absurd rfl (hnone (['='], .eq) (by decide))

namespace Watch

variable {watch : Watch} {offset : Nat} {lexer lexer' : Lexer}

theorem stop_ne_angle {kind : Kind} (watch : Watch) (h : angleKinds.contains kind = true) :
    kind ≠ watch.stop := by
  rintro rfl
  have hallowed := KindSet.contains_of_isSubset watch.angles_allowed h
  rw [watch.stop_not_allowed] at hallowed
  cases hallowed

/-- What the stop is depends on the kind and the place of the lookahead, on where the next token
starts, and on whether an operator stands in front. -/
theorem Nears.congr (h : watch.Nears offset lexer)
    (hkind : lexer'.current.kind = lexer.current.kind)
    (hstart : lexer'.current.span.start = lexer.current.span.start)
    (hnext : lexer'.next = lexer.next)
    (hangle : angleKinds.contains lexer'.preceding = angleKinds.contains lexer.preceding) :
    watch.Nears offset lexer' := by
  have hadvance : lexer'.advance = lexer.advance := by
    rw [Lexer.advance, Lexer.advance, hkind, hnext]
  cases h with
  | stop kind place => exact .stop (hkind.trans kind) (hstart.trans place)
  | step kind brace rest =>
    rw [← hkind] at kind
    rw [Lexer.Assigns, ← hkind, ← hangle, ← hadvance] at brace
    exact .step kind brace (hadvance ▸ rest)

theorem nears_congr (hcurrent : lexer'.current = lexer.current) (hnext : lexer'.next = lexer.next)
    (hangle : angleKinds.contains lexer'.preceding = angleKinds.contains lexer.preceding) :
    watch.Nears offset lexer' ↔ watch.Nears offset lexer := by
  constructor
  · intro h
    exact h.congr (by rw [hcurrent]) (by rw [hcurrent]) hnext.symm hangle.symm
  · intro h
    exact h.congr (by rw [hcurrent]) (by rw [hcurrent]) hnext hangle

/-- The lookahead is not behind the stop. -/
theorem Nears.le (h : watch.Nears offset lexer) (hplaced : lexer.Placed) :
    lexer.current.span.start ≤ offset := by
  induction h with
  | stop kind place => exact Nat.le_of_eq place
  | @step lexer kind brace rest ih =>
    calc
      lexer.current.span.start ≤ lexer.advance.start.offset := hplaced.span_start.2
      _ ≤ lexer.advance.current.span.start := lexer.advance_placed.span_start.1
      _ ≤ offset := ih lexer.advance_placed

/-- An operator made of `>` and `=` is never the stop. -/
theorem nears_iff_of_angle (h : angleKinds.contains lexer.current.kind = true) :
    watch.Nears offset lexer ↔
      (watch.bars = true → lexer.Assigns → lexer.advance.current.kind ≠ .leftBrace) ∧
        watch.Nears offset lexer.advance := by
  constructor
  · intro hnears
    cases hnears with
    | stop kind place => exact absurd kind (watch.stop_ne_angle h)
    | step kind brace rest => exact ⟨brace, rest⟩
  · rintro ⟨hbrace, hrest⟩
    exact .step (KindSet.contains_of_isSubset watch.angles_allowed h) hbrace hrest

end Watch

namespace Lexer

/-- Reading goes on alike behind any two operators, since no operand ends with them. -/
theorem place_congr (start : Cursor) {preceding preceding' : Kind}
    (h : preceding'.endsOperand = preceding.endsOperand) :
    (place start .plain preceding').current = (place start .plain preceding).current ∧
      (place start .plain preceding').next = (place start .plain preceding).next := by
  have hlex : lex .plain preceding' start = lex .plain preceding start := by
    simp only [lex, scan_congr .plain h]
  exact ⟨congrArg Prod.fst hlex, congrArg Prod.snd hlex⟩

/-- The token at the front of a run of `>` and `=`. -/
theorem place_run {stop a : Cursor} {run : List Char} (hrun : run.all isAngle = true)
    (hne : run ≠ []) (hstop : stop.rest.head?.any isAngle = false) (ha : a.Passes run stop)
    (preceding : Kind) :
    (place a .plain preceding).current.kind = (Scan.symbol run).kind ∧
      (place a .plain preceding).next = (layout (a.skip (Scan.symbol run).size)).after := by
  obtain ⟨hplain, -, -⟩ := Scan.plain_run hrun hne hstop preceding
  have hscan : scan .plain preceding a.rest = Scan.symbol run := by
    rw [ha.1]
    exact hplain
  simp only [place, lex, Cursor.layout_run ha hrun hne, hscan, and_self]

end Lexer

namespace Watch

/-- However a run of `>` and `=` is read, the stop is what it is behind the run, unless the run is
all of an `=`. -/
theorem nears_run (watch : Watch) (offset : Nat) {stop a : Cursor} {run : List Char}
    (hrun : run.all isAngle = true) (hne : run ≠ [])
    (hstop : stop.rest.head?.any isAngle = false) (ha : a.Passes run stop) {preceding : Kind}
    (hlong : run ≠ ['='] ∨ angleKinds.contains preceding = true) :
    watch.Nears offset (.place a .plain preceding) ↔
      watch.Nears offset (.place (layout stop).after .plain .gt) := by
  -- the first operator of the run leaves a shorter one, in front of which an operator stands
  induction hlength : run.length using Nat.strong_induction_on generalizing run a preceding with
  | _ length ih =>
    let found := Scan.symbol run
    let back := run.drop found.size
    obtain ⟨-, hsize, hoperand⟩ := Scan.plain_run hrun hne hstop preceding
    obtain ⟨hangle, hequals⟩ := Scan.symbol_angle hrun hne
    obtain ⟨hkind, hnext⟩ := Lexer.place_run hrun hne hstop ha preceding
    have hrest : (a.skip found.size).Passes back stop := ha.skip hsize
    rw [nears_iff_of_angle (hkind ▸ hangle), Lexer.Assigns, Lexer.advance, hkind, hnext]
    by_cases hlast : back = []
    · -- the run ends with this token
      have hwhole : found.size = run.length :=
        Nat.le_antisymm hsize (List.drop_eq_nil_iff.mp hlast)
      rw [hlast] at hrest
      obtain rfl := hrest.eq_of_nil
      obtain ⟨hcurrent, hnext'⟩ := Lexer.place_congr (layout (a.skip found.size)).after
        (show found.kind.endsOperand = Kind.endsOperand .gt from hoperand)
      have hsame : angleKinds.contains found.kind = angleKinds.contains .gt := hangle
      rw [nears_congr hcurrent hnext' hsame]
      refine and_iff_right fun _ hassigns => ?_
      obtain ⟨heq, hfirst⟩ := hassigns
      rcases hlong with hlong | hbehind
      · exact absurd (hequals hwhole heq) hlong
      · cases hbehind.symm.trans hfirst
    · -- the next token starts where this one ends, and it belongs to the run again
      have hback : back.all isAngle = true := by
        rw [← List.take_append_drop found.size run, List.all_append, Bool.and_eq_true] at hrun
        exact hrun.2
      have hshort : back.length < length := by
        have hpos : 0 < found.size := (Scan.symbol_isFull run).2
        have hnonempty := List.length_pos_iff.mpr hne
        rw [List.length_drop]
        omega
      have hbrace : (Lexer.place (a.skip found.size) .plain found.kind).current.kind ≠
          .leftBrace := by
        rw [(Lexer.place_run hback hlast hstop hrest found.kind).1]
        intro hleft
        have hwrong := (Scan.symbol_angle hback hlast).1
        rw [hleft] at hwrong
        exact absurd hwrong (by decide)
      rw [Cursor.layout_run hrest hback hlast,
        ih back.length hshort hback hlast hrest (Or.inr hangle) rfl]
      exact and_iff_right fun _ _ => hbrace

end Watch

/-- A `>` stands at the front of a run of `>` and `=` that ends somewhere. -/
theorem Cursor.exists_run {a : Cursor} (h : a.rest.head? = some '>') :
    ∃ back stop, a.Passes ('>' :: back) stop ∧ back.all isAngle = true ∧
      stop.rest.head?.any isAngle = false := by
  obtain ⟨more, hrest⟩ : ∃ more, a.rest = '>' :: more := List.head?_eq_some_iff.mp h
  let back := more.takeWhile isAngle
  let stop : Cursor := ⟨a.offset + byteCount ('>' :: back), more.dropWhile isAngle⟩
  refine ⟨back, stop, ⟨?_, rfl⟩, List.all_takeWhile, ?_⟩
  · rw [hrest, List.cons_append, List.takeWhile_append_dropWhile]
  · have hhead := List.head?_dropWhile_not isAngle more
    show (more.dropWhile isAngle).head?.any isAngle = false
    revert hhead
    cases (more.dropWhile isAngle).head? with
    | none => exact fun _ => rfl
    | some c => exact id

namespace Watch

variable {watch : Watch} {offset : Nat}

/-- Layout in front of a token does not matter. -/
theorem Nears.of_layout {start : Cursor} {preceding : Kind}
    (h : watch.Nears offset (.place start .plain preceding)) :
    watch.Nears offset (.place (layout start).after .plain preceding) := by
  have hlayout : layout (layout start).after = ⟨[], none, (layout start).after⟩ :=
    layout_of_none (stretch?_layout start)
  refine h.congr ?_ ?_ ?_ rfl
  · simp only [Lexer.place, lex, hlayout]
  · simp only [Lexer.place, lex, hlayout]
  · simp only [Lexer.place, lex, hlayout]

/-- Reading `>` on its own leads to the same stop. -/
theorem nears_angle {start : Cursor} {preceding : Kind}
    (h : watch.Nears offset (.place start .plain preceding)) :
    watch.Nears offset (.place start .angle preceding) := by
  let a := (layout start).after
  by_cases hhead : a.rest.head? = some '>'
  · obtain ⟨back, stop, ha, hback, hstop⟩ := Cursor.exists_run hhead
    have hrun : ('>' :: back).all isAngle = true := by simpa [isAngle] using hback
    have hbehind := (nears_run watch offset hrun (List.cons_ne_nil _ _) hstop ha
      (Or.inl (by simp))).mp h.of_layout
    have hkind : (Lexer.place start .angle preceding).current.kind = .gt :=
      congrArg Scan.kind (scan_angle hhead preceding)
    have hnext : (Lexer.place start .angle preceding).next = (layout (a.skip 1)).after :=
      congrArg (fun found => (layout (a.skip (Scan.size found))).after)
        (scan_angle hhead preceding)
    have hrest : (a.skip 1).Passes back stop := ha.skip (Nat.le_add_left 1 back.length)
    rw [nears_iff_of_angle (by rw [hkind]; decide), Lexer.Assigns, Lexer.advance, hkind, hnext]
    refine ⟨fun _ hassigns => absurd hassigns.1 (by decide), ?_⟩
    -- behind the `>` stands what is left of the run, if anything
    by_cases hlast : back = []
    · rw [hlast] at hrest
      rwa [← hrest.eq_of_nil]
    · rwa [Cursor.layout_run hrest hback hlast,
        nears_run watch offset hback hlast hstop hrest (Or.inr (by decide))]
  · have hscan : scan .angle preceding (layout start).after.rest =
        scan .plain preceding (layout start).after.rest := scan_angle_of_ne hhead preceding
    have hlex : lex .angle preceding start = lex .plain preceding start := by
      simp only [lex, hscan]
    have hcurrent : (Lexer.place start .angle preceding).current =
        (Lexer.place start .plain preceding).current := congrArg Prod.fst hlex
    have hnext : (Lexer.place start .angle preceding).next =
        (Lexer.place start .plain preceding).next := congrArg Prod.snd hlex
    exact (nears_congr hcurrent hnext rfl).mpr h

theorem Nears.relex {lexer : Lexer} (h : watch.Nears offset lexer) (hplaced : lexer.Placed)
    (hmode : lexer.mode = .plain ∨ lexer.mode = .angle) :
    watch.Nears offset (lexer.relex .angle) := by
  unfold Lexer.relex
  split
  · exact h
  · next hangle =>
    have hplain := hmode.resolve_right hangle
    rw [hplaced, hplain] at h
    exact nears_angle h

end Watch

end ScriptTree

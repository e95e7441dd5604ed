import ScriptTree.Proofs.Grammar.Declaration
import ScriptTree.Proofs.Parser.Steps
import ScriptTree.Proofs.Tree.Built

/-!
Whole files. The items of a text are read up to its end, within the budget and without breaking a
rule of use, so every text has a tree, and the tree shows what was read.
-/

namespace ScriptTree

namespace Grammar

open Sight Phrase Reading ParseState

def fileItems : Clause :=
  .loop (.not (.sees .eof)) (.recover item)

def fileReading (text : String) (limit : Nat) : Reading :=
  fileItems.draw (drawRule grammar (ruleBudget limit)) (.ofText text limit)

def fileShape (text : String) (limit : Nat) : Shape :=
  .node .sourceFile none
    ((fileReading text limit).shapes ++ [.leaf (fileReading text limit).lexer.current none])

theorem fulfils_fileItems : fulfils fileItems 8 .strict
    ⟨vague none, { Exits.nowhere with done := some (seeing (.single .eof)) }⟩ = true := by
  decide +kernel

theorem grounded_ofText (text : String) (limit : Nat) : (ofText text limit).Grounded :=
  ⟨text, rfl, Lexer.reached_ofText text⟩

/-- The items of a text are read according to the rules of use, and up to the end of the text. -/
theorem covers_fileReading (text : String) (limit : Nat) :
    Exits.Covers { Exits.nowhere with done := some (seeing (.single .eof)) } .strict 0
      (ofText text limit) (fileReading text limit) := by
  refine follows_of_fulfils (accounts_drawRule grammar _) (holds_book _) fulfils_fileItems 0 _ ?_
    nofun
  refine ⟨vague_sees nofun, grounded_ofText text limit, Nat.zero_le _, ?_⟩
  simp only [Affords, ruleBudget, ofText]
  omega

theorem accounted_fileReading (text : String) (limit : Nat) :
    (fileReading text limit).Accounted (Lexer.ofText text) :=
  Accounts.phrase (accounts_drawRule grammar _) fileItems (.ofText text limit)

theorem fileReading_verdict (text : String) (limit : Nat) :
    (fileReading text limit).verdict = .done := by
  obtain ⟨known, hknown, _⟩ := (covers_fileReading text limit).finds
  cases hv : (fileReading text limit).verdict <;> rw [hv] at hknown <;> first | rfl | cases hknown

/-- Behind the items of a text stands its end. -/
theorem fileReading_eof (text : String) (limit : Nat) :
    (fileReading text limit).lexer.current.kind = .eof := by
  obtain ⟨known, hknown, hsees⟩ := (covers_fileReading text limit).finds
  rw [fileReading_verdict] at hknown
  obtain rfl := Option.some.inj hknown
  have hhere := hsees.here
  rw [show (seeing (.single .eof)).here = .single .eof from rfl, KindSet.contains_single,
    beq_iff_eq] at hhere
  exact hhere.symm

theorem drawLoop_congr {test : ParseState → Bool} {step step' : ParseState → Reading}
    {state : ParseState} (h : ∀ lexer, step (state.moveTo lexer) = step' (state.moveTo lexer))
    (limit : Nat) : drawLoop test step state limit = drawLoop test step' state limit := by
  induction limit generalizing state with
  | zero => rfl
  | succ limit ih =>
    have hstep : step state = step' state := h state.lexer
    have hrest : drawLoop test step (state.moveTo (step' state).lexer) limit =
        drawLoop test step' (state.moveTo (step' state).lexer) limit := ih h
    simp only [drawLoop, hstep, hrest]

theorem holds_not_eof (state : ParseState) :
    Test.holds state (.not (.sees .eof)) = (state.kind != .eof) := by
  rw [Test.holds, holds_sees, bne, Bool.beq_comm]

/-- Reading the items of a file records their reading. -/
theorem recorded_items (state : ParseState)
    (h : (fileItems.draw (drawRule grammar (ruleBudget state.limit)) state.bare).misused = false) :
    Recorded state (fileItems.draw (drawRule grammar (ruleBudget state.limit)) state.bare)
      (.done, state.loopWhile (fun state => state.kind != .eof) readItem state.rounds) := by
  have hdraw : fileItems.draw (drawRule grammar (ruleBudget state.limit)) state.bare =
      drawLoop (fun state => Test.holds state (.not (.sees .eof)))
        (fun state => (recover item).draw (drawRule grammar (ruleBudget state.limit)) state)
        state.bare state.rounds := by
    rw [fileItems, draw]
    refine drawLoop_congr ?_ state.rounds
    intro lexer
    rfl
  have hitem : Describes
      (fun state => (recover item).draw (drawRule grammar (ruleBudget state.limit)) state)
      readItem :=
    fun state hm => Describes.phrase (describes_runRule grammar _) (recover item) state hm
  rw [hdraw] at h ⊢
  simp only [← holds_not_eof]
  exact hitem.loop state _ h

def ending (lexer : Lexer) : Reading :=
  { verdict := .chose .sourceFile
    shapes := [.leaf lexer.current none]
    reports := []
    failures := 0
    lexer := lexer.advance
    misused := false }

theorem recorded_ending (state : ParseState) :
    Recorded state (ending state.lexer) (.chose .sourceFile, state.push none) := by
  refine ⟨.token .nil state.current none, trivial, rfl, rfl, ?_⟩
  simp [extend, push, Growth.events, ending, current]

/-- What reading a file leaves behind. -/
theorem readFile_eq (text : String) (limit : Nat) :
    ∃ growth : Growth, growth.IsSound ∧ growth.shapes = [fileShape text limit] ∧
      (readFile text limit).events = (growth.events none).toArray ∧
      (readFile text limit).diagnostics.toList = (fileReading text limit).reports ∧
      (readFile text limit).misused = false := by
  let start := ofText text limit
  let items := fileReading text limit
  have hkeeps := (covers_fileReading text limit).keeps
  have hitems : Recorded start.openNode items
      (.done, start.openNode.loopWhile (fun state => state.kind != .eof) readItem start.rounds) :=
    recorded_items start.openNode hkeeps
  generalize hlast : start.openNode.loopWhile (fun state => state.kind != .eof) readItem
    start.rounds = last at hitems
  have hlexer : last.lexer = items.lexer := by
    obtain ⟨growth, -, -, -, hextend⟩ := hitems
    exact congrArg ParseState.lexer hextend
  have hdemand : last.demand .eof = last := by
    rw [ParseState.demand, ParseState.kind, current, hlexer, fileReading_eof]
    exact require_true last
  have hend := hitems.andThen (recorded_ending last)
  rw [hlexer] at hend
  have hclose : (items.andThen (ending items.lexer)).close.misused = false := by
    rw [close_of_chose rfl]
    simpa [andThen, ending] using hkeeps
  obtain ⟨growth, hsound, hshapes, -, hresult⟩ := hend.close hclose
  have hfile : readFile text limit =
      start.extend (items.andThen (ending items.lexer)).close growth := by
    rw [← hresult, ← hdemand, ← hlast]
    rfl
  rw [close_of_chose rfl] at hshapes hfile
  refine ⟨growth, hsound, hshapes, ?_, ?_, ?_⟩
  · simp [hfile, extend, start, ofText]
  · simp [hfile, extend, start, ofText, andThen, ending, items]
  · rw [hfile]
    rfl

end Grammar

open Grammar

/-- The tokens of a file cover its text. -/
theorem Grammar.tiled_fileShape (text : String) (limit : Nat) :
    ∃ stop, Tiled (Cursor.ofText text) (fileShape text limit).tokens stop ∧ stop.rest = [] := by
  obtain ⟨tokens, hreads, -, hclear, -⟩ := (accounted_fileReading text limit).reads
  have hplaced := hreads.placed (Lexer.place_placed _ _ _)
  refine ⟨(fileReading text limit).lexer.next, ?_, hplaced.next_rest (fileReading_eof text limit)⟩
  have hitems : Tiled (Cursor.ofText text) (Shape.tokensAll (fileReading text limit).shapes)
      (fileReading text limit).lexer.start :=
    (hreads.tiled (Lexer.place_placed _ _ _)).of_cleared hclear
  simp only [fileShape, Shape.tokens, Shape.tokensAll_append, Shape.tokensAll_singleton]
  exact hitems.append (.cons hplaced.fills (.nil _))

/-- Only texts of fewer than `2 ^ 32` bytes have a parse. -/
theorem size_lt_of_parseWith {text : String} {limit : Nat} {parse : Parse}
    (h : parseWith text limit = .ok parse) : text.utf8ByteSize < UInt32.size := by
  cases hb : Tree.assemble text (readFile text limit).events.steps with
  | ok tree => exact Tree.size_lt_of_assemble hb
  | error fault =>
    unfold parseWith at h
    simp only [hb] at h
    split at h <;> cases h

/-- A parse builds the tree of the file that was read. -/
theorem parseWith_assemble (text : String) (limit : Nat) :
    parseWith text limit = (Tree.assemble text (fileShape text limit).steps).map
      fun tree => ⟨tree, (readFile text limit).reports⟩ := by
  obtain ⟨growth, hsound, hshapes, hevents, -, hmisused⟩ := readFile_eq text limit
  have hlinked : (readFile text limit).events.isLinked = true := by
    rw [hevents]
    exact Growth.isLinked_events hsound
  have hsteps : (readFile text limit).events.steps = (fileShape text limit).steps := by
    rw [hevents, Growth.steps_events hsound, hshapes, Shape.stepsAll_singleton]
  simp only [parseWith, hmisused, hlinked, hsteps]
  cases Tree.assemble text (fileShape text limit).steps <;> rfl

/-- The tree of a parse is built from the file that was read. -/
theorem assemble_of_parseWith {text : String} {limit : Nat} {parse : Parse}
    (h : parseWith text limit = .ok parse) :
    Tree.assemble text (fileShape text limit).steps = .ok parse.tree := by
  rw [parseWith_assemble] at h
  cases hbuilt : Tree.assemble text (fileShape text limit).steps with
  | error fault =>
    rw [hbuilt] at h
    cases h
  | ok tree =>
    rw [hbuilt] at h
    exact congrArg (fun parse => Except.ok (Parse.tree parse)) (Except.ok.inj h)

/-- Every text has a tree, which shows what was read. -/
theorem parseWith_eq {text : String} (h : text.utf8ByteSize < UInt32.size) (limit : Nat) :
    ∃ tree, parseWith text limit = .ok ⟨tree, (readFile text limit).reports⟩ ∧
      tree.text = text ∧ tree.Draws (fileShape text limit) := by
  obtain ⟨stop, htiled, hstop⟩ := tiled_fileShape text limit
  obtain ⟨tree, hbuild, htext, hdraws⟩ := Tree.assemble_node htiled hstop h
  refine ⟨tree, ?_, htext, hdraws⟩
  have hbuild' : Tree.assemble text (fileShape text limit).steps = .ok tree := hbuild
  rw [parseWith_assemble, hbuild']
  rfl

end ScriptTree

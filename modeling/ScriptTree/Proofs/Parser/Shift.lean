import ScriptTree.Proofs.Lexer.Shift
import ScriptTree.Proofs.Parser.Quiet

/-!
Phrases further on in a text. A phrase reads the same from two states whose lexers read the same
characters: what it builds and reports lies apart by the bytes that lie between the lexers, and
nothing else differs.
-/

namespace ScriptTree

def Diagnostic.shift (distance : Nat) (diagnostic : Diagnostic) : Diagnostic :=
  { diagnostic with span := diagnostic.span.shift distance }

namespace Shape

mutual

def shift (distance : Nat) : Shape → Shape
  | .leaf token field => .leaf (token.shift distance) field
  | .node kind field children => .node kind field (shiftAll distance children)

def shiftAll (distance : Nat) : List Shape → List Shape
  | [] => []
  | shape :: rest => shape.shift distance :: shiftAll distance rest

end

theorem shiftAll_eq (distance : Nat) (shapes : List Shape) :
    shiftAll distance shapes = shapes.map (shift distance) := by
  induction shapes with
  | nil => rfl
  | cons shape rest ih => rw [shiftAll, ih, List.map_cons]

theorem shift_withField (distance : Nat) (field : Field) (shape : Shape) :
    (shape.shift distance).withField field = (shape.withField field).shift distance := by
  cases shape <;> simp [shift, withField]

theorem fillLast_shift (distance : Nat) (field : Field) (shapes : List Shape) :
    fillLast field (shapes.map (shift distance)) =
      (fillLast field shapes).map (shift distance) := by
  rcases List.eq_nil_or_concat shapes with rfl | ⟨front, last, rfl⟩
  · rfl
  · simp only [List.concat_eq_append, List.map_append, List.map_singleton,
      fillLast_append_singleton, shift_withField]

mutual

theorem tokens_shift (distance : Nat) : ∀ shape : Shape,
    (shape.shift distance).tokens = shape.tokens.map (Token.shift distance)
  | .leaf _ _ => by simp [shift, tokens]
  | .node _ _ children => by
    rw [shift, tokens, tokens, tokensAll_shift distance children]

theorem tokensAll_shift (distance : Nat) : ∀ shapes : List Shape,
    tokensAll (shiftAll distance shapes) = (tokensAll shapes).map (Token.shift distance)
  | [] => by simp [shiftAll]
  | shape :: rest => by
    rw [shiftAll, tokensAll, tokensAll, List.map_append, tokens_shift distance shape,
      tokensAll_shift distance rest]

end

end Shape

structure ParseState.Shifted (distance : Nat) (state state' : ParseState) : Prop where
  lexer : state.lexer.Shifted distance state'.lexer
  depth : state'.depth = state.depth
  limit : state'.limit = state.limit
  size : state'.size = state.size + distance

structure Reading.Shifted (distance : Nat) (reading reading' : Reading) : Prop where
  verdict : reading'.verdict = reading.verdict
  shapes : reading'.shapes = reading.shapes.map (Shape.shift distance)
  reports : reading'.reports = reading.reports.map (Diagnostic.shift distance)
  failures : reading'.failures = reading.failures
  lexer : reading.lexer.Shifted distance reading'.lexer
  misused : reading'.misused = reading.misused

namespace ParseState

variable {distance : Nat} {state state' : ParseState}

theorem Shifted.kind (h : Shifted distance state state') : state'.kind = state.kind :=
  h.lexer.kind

theorem Shifted.current (h : Shifted distance state state') :
    state'.current = state.current.shift distance :=
  h.lexer.current

theorem Shifted.moveTo (h : Shifted distance state state') {lexer lexer' : Lexer}
    (hl : lexer.Shifted distance lexer') :
    Shifted distance (state.moveTo lexer) (state'.moveTo lexer') :=
  ⟨hl, h.depth, h.limit, h.size⟩

/-- The bytes to come are as many. -/
theorem Shifted.rounds (h : Shifted distance state state') : state'.rounds = state.rounds := by
  simp only [ParseState.rounds, h.size, h.lexer.start, Cursor.shift]
  omega

theorem Shifted.missing (h : Shifted distance state state') (what : String) :
    state'.missing what = state.missing what := by
  simp only [ParseState.missing, found, h.kind, h.current]
  rfl

theorem Shifted.complaint (h : Shifted distance state state') (message : String) :
    state'.complaint message = (state.complaint message).shift distance := by
  simp only [ParseState.complaint, h.kind, h.current]
  split <;> rfl

def leaves (state : ParseState) : List Shape :=
  state.events.toList.filterMap Event.leaf?

/-- A token that is discarded in both states is the same but for its place. -/
theorem Shifted.discard (h : Shifted distance state state')
    (hleaves : state'.leaves = state.leaves.map (Shape.shift distance)) :
    Shifted distance state.discard state'.discard ∧
      state'.discard.leaves = state.discard.leaves.map (Shape.shift distance) := by
  unfold ParseState.discard
  rw [h.kind]
  split
  · exact ⟨h, hleaves⟩
  · refine ⟨⟨h.lexer.advance, h.depth, h.limit, h.size⟩, ?_⟩
    simp only [leaves, Array.toList_push, List.filterMap_append, List.map_append] at hleaves ⊢
    rw [hleaves, h.lexer.current]
    rfl

/-- Skipping an element takes the same tokens. -/
theorem Shifted.skipElement (h : Shifted distance state state')
    (hleaves : state'.leaves = state.leaves.map (Shape.shift distance)) (braces : Nat)
    (isFirst : Bool) (rounds : Nat) :
    Shifted distance (state.skipElement braces isFirst rounds)
        (state'.skipElement braces isFirst rounds) ∧
      (state'.skipElement braces isFirst rounds).leaves =
        (state.skipElement braces isFirst rounds).leaves.map (Shape.shift distance) := by
  induction rounds generalizing state state' braces isFirst with
  | zero => exact ⟨h, hleaves⟩
  | succ rounds ih =>
    obtain ⟨hd, hdleaves⟩ := h.discard hleaves
    simp only [ParseState.skipElement, h.kind]
    split
    · exact ⟨h, hleaves⟩
    · split
      · split
        · exact ⟨hd, hdleaves⟩
        · exact ⟨h, hleaves⟩
      · exact ⟨hd, hdleaves⟩
      · exact ih hd hdleaves _ _
    · split
      · exact ⟨hd, hdleaves⟩
      · exact ih hd hdleaves _ _
    · exact ih hd hdleaves _ _
    · exact ih hd hdleaves _ _

end ParseState

/-- A label is told from the tokens to come. -/
theorem Test.labelTail_shifted {distance : Nat} {lexer lexer' : Lexer}
    (h : lexer.Shifted distance lexer') (limit : Nat) :
    labelTail lexer' limit = labelTail lexer limit := by
  induction limit generalizing lexer lexer' with
  | zero => rfl
  | succ limit ih =>
    simp only [labelTail, h.kind, h.advance.kind, ih h.advance.advance]

/-- A test looks at the characters to come only. -/
theorem Test.holds_shifted {distance : Nat} {state state' : ParseState}
    (h : state.Shifted distance state') (test : Test) :
    test.holds state' = test.holds state := by
  induction test with
  | peek distance kinds =>
    simp only [holds, h.lexer.ahead]
    rfl
  | word words =>
    simp only [holds, h.kind, h.current]
    rfl
  | label => simp only [holds, h.kind, h.rounds, labelTail_shifted h.lexer.advance]
  | glued =>
    simp only [holds, h.current]
    rfl
  | not test ih => simp only [holds, ih]
  | and first second ih ih' => simp only [holds, ih, ih']
  | or first second ih ih' => simp only [holds, ih, ih']

namespace Reading

open ParseState

variable {distance : Nat} {state state' : ParseState}

theorem shifted_stay (h : state.Shifted distance state') (verdict : Verdict) :
    Shifted distance (stay state verdict) (stay state' verdict) :=
  ⟨rfl, rfl, rfl, rfl, h.lexer, rfl⟩

theorem shifted_taken (h : state.Shifted distance state') (field : Option Field) :
    Shifted distance (taken state field) (taken state' field) := by
  unfold taken
  rw [h.kind]
  split
  · exact shifted_stay h .done
  · refine ⟨rfl, ?_, rfl, rfl, h.lexer.advance, rfl⟩
    simp [h.current, Shape.shift]

theorem shifted_failing (h : state.Shifted distance state') {report report' : Diagnostic}
    (hr : report' = report.shift distance) :
    Shifted distance (failing state report) (failing state' report') := by
  subst hr
  exact ⟨rfl, rfl, rfl, rfl, h.lexer, rfl⟩

variable {reading reading' : Reading}

theorem Shifted.isClean (h : Shifted distance reading reading') :
    reading'.isClean = reading.isClean := by
  rw [Reading.isClean, Reading.isClean, h.verdict, h.failures]

theorem Shifted.settle (h : Shifted distance reading reading') (verdict : Verdict) :
    Shifted distance { reading with verdict } { reading' with verdict } :=
  ⟨rfl, h.shapes, h.reports, h.failures, h.lexer, h.misused⟩

theorem Shifted.andThen {second second' : Reading} (h : Shifted distance reading reading')
    (h' : Shifted distance second second') :
    Shifted distance (reading.andThen second) (reading'.andThen second') := by
  refine ⟨h'.verdict, ?_, ?_, ?_, h'.lexer, ?_⟩
  · simp only [Reading.andThen, h.shapes, h'.shapes, List.map_append]
  · simp only [Reading.andThen, h.reports, h'.reports, List.map_append]
  · simp only [Reading.andThen, h.failures, h'.failures]
  · simp only [Reading.andThen, h.misused, h'.misused]

theorem Shifted.instead {dropped dropped' : Reading} (h : Shifted distance reading reading')
    (h' : Shifted distance dropped dropped') :
    Shifted distance (reading.instead dropped) (reading'.instead dropped') := by
  refine ⟨h.verdict, h.shapes, h.reports, h.failures, h.lexer, ?_⟩
  simp only [Reading.instead, h.misused, h'.misused]

theorem Shifted.close (h : Shifted distance reading reading') :
    Shifted distance reading.close reading'.close := by
  unfold Reading.close
  rw [h.verdict]
  split
  · refine ⟨rfl, ?_, h.reports, h.failures, h.lexer, ?_⟩
    · simp only [h.shapes, List.map_singleton, Shape.shift, Shape.shiftAll_eq]
    · simp only [h.misused]
  · exact h.settle .failed

theorem Shifted.fill (h : Shifted distance reading reading') (field : Field) :
    Shifted distance (reading.fill field) (reading'.fill field) := by
  unfold Reading.fill
  rw [h.verdict]
  split
  · refine ⟨rfl, ?_, h.reports, h.failures, h.lexer, h.misused⟩
    simp only [h.shapes, Shape.fillLast_shift]
  · exact h

/-- Nodes that are put around readings with a distance between them keep it. -/
theorem Shifted.wrap {body body' : Reading} (h : Shifted distance reading reading')
    (hb : Shifted distance body body') :
    Shifted distance (reading.wrap body) (reading'.wrap body') := by
  have hboth := h.andThen hb
  unfold Reading.wrap
  rw [hb.verdict]
  split
  · refine ⟨rfl, ?_, hboth.reports, hboth.failures, hboth.lexer, ?_⟩
    · have hlast : (reading.shapes.map (Shape.shift distance)).getLast?.toList =
          reading.shapes.getLast?.toList.map (Shape.shift distance) := by
        rw [List.getLast?_map]
        cases reading.shapes.getLast? <;> rfl
      simp [h.shapes, hb.shapes, Shape.shift, Shape.shiftAll_eq, hlast, List.map_dropLast,
        -List.getLast?_map]
    · simp only [hboth.misused]
  · exact ⟨hboth.verdict, hboth.shapes, hboth.reports, hboth.failures, hboth.lexer, rfl⟩

/-- The tokens of a malformed element are the same. -/
theorem Shifted.skipped (h : Shifted distance reading reading')
    (hs : state.Shifted distance state') :
    Shifted distance (skipped state reading) (skipped state' reading') := by
  have hbare : state.bare.Shifted distance state'.bare := ⟨hs.lexer, hs.depth, hs.limit, hs.size⟩
  obtain ⟨hrest, hleaves⟩ := hbare.skipElement rfl 0 true state.rounds
  refine ⟨rfl, ?_, ?_, rfl, ?_, h.misused⟩
  · simp only [Reading.skipped, hs.rounds, List.map_singleton, Shape.shift, Shape.shiftAll_eq]
    exact congrArg (fun children => [Shape.node .error none children]) hleaves
  · simp only [Reading.skipped, h.reports, List.head?_map]
    cases reading.reports.head? <;> rfl
  · simp only [Reading.skipped, hs.rounds]
    exact hrest.lexer

end Reading

namespace Phrase

open ParseState Reading

variable {Rule : Type} {distance : Nat}

def Shifts (distance : Nat) (draw : ParseState → Reading) : Prop :=
  ∀ state state' : ParseState, state.Shifted distance state' →
    (draw state).Shifted distance (draw state')

theorem Shifts.andThen {first second : ParseState → Reading} (h : Shifts distance first)
    (h' : Shifts distance second) :
    Shifts distance fun state =>
      (first state).andThen (second (state.moveTo (first state).lexer)) := by
  intro state state' hs
  have hfirst := h state state' hs
  exact hfirst.andThen (h' _ _ (hs.moveTo hfirst.lexer))

/-- Both loops make as many rounds, since their tests see the same tokens. -/
theorem Shifts.loop {test : Test} {step : ParseState → Reading} (h : Shifts distance step)
    (rounds : Nat) :
    Shifts distance fun state => drawLoop (fun state => test.holds state) step state rounds := by
  intro state state' hs
  induction rounds generalizing state state' with
  | zero => exact ⟨rfl, rfl, rfl, rfl, hs.lexer, rfl⟩
  | succ rounds ih =>
    have hstep := h state state' hs
    simp only [drawLoop, Test.holds_shifted hs, hstep.verdict]
    split
    · split
      · exact hstep.settle .done
      · exact hstep.andThen (ih _ _ (hs.moveTo hstep.lexer))
    · exact shifted_stay hs .done

/-- Both chains make as many rounds, since their tests see the same tokens. -/
theorem Shifts.chain {test : Test} {field : Kind → Field} {step : ParseState → Reading}
    (h : Shifts distance step) (rounds : Nat) {state state' : ParseState}
    (hs : state.Shifted distance state') {reading reading' : Reading}
    (hr : reading.Shifted distance reading') :
    (drawChain (fun state => test.holds state) field step state reading rounds).Shifted distance
      (drawChain (fun state => test.holds state) field step state' reading' rounds) := by
  induction rounds generalizing state state' reading reading' with
  | zero => exact ⟨hr.verdict, hr.shapes, hr.reports, hr.failures, hr.lexer, rfl⟩
  | succ rounds ih =>
    have hmoved := hs.moveTo hr.lexer
    have hwrapped := (hr.fill (field (state.moveTo reading.lexer).kind)).wrap
      (h _ _ hmoved)
    simp only [drawChain, Test.holds_shifted hmoved, hmoved.kind, hwrapped.misused]
    split
    · split
      · exact hwrapped
      · exact ih hmoved hwrapped
    · exact hr

/-- Every phrase reads the same further on in a text, if the rules do. -/
theorem Shifts.phrase {drawRule : Rule → ParseState → Reading}
    (hrules : ∀ rule, Shifts distance (drawRule rule)) (phrase : Phrase Rule) :
    Shifts distance (phrase.draw drawRule) := by
  induction phrase with
  | done => exact fun state state' hs => shifted_stay hs .done
  | reject => exact fun state state' hs => shifted_stay hs .failed
  | choose kind => exact fun state state' hs => shifted_stay hs (.chose kind)
  | take field => exact fun state state' hs => shifted_taken hs field
  | expect kind field =>
    intro state state' hs
    simp only [draw, hs.kind]
    split
    · exact shifted_taken hs field
    · exact shifted_failing hs (by rw [hs.missing, hs.complaint])
  | close kind =>
    intro state state' hs
    simp only [draw, hs.kind]
    split
    · exact shifted_taken hs none
    · refine ⟨rfl, rfl, ?_, rfl, hs.lexer, rfl⟩
      simp only [hs.missing, hs.current]
      rfl
  | missing what =>
    exact fun state state' hs => shifted_failing hs (by rw [hs.missing, hs.complaint])
  | refuse message => exact fun state state' hs => shifted_failing hs (hs.complaint message)
  | demand kind =>
    intro state state' hs
    refine ⟨rfl, rfl, rfl, rfl, hs.lexer, ?_⟩
    simp only [draw, hs.kind]
  | relex mode => exact fun state state' hs => ⟨rfl, rfl, rfl, rfl, hs.lexer.relex mode, rfl⟩
  | seq first second ih ih' => exact ih.andThen ih'
  | both first second ih ih' =>
    intro state state' hs
    simp only [draw, (ih state state' hs).verdict]
    split
    · exact ih state state' hs
    · exact ih.andThen ih' state state' hs
  | branch test yes no ih ih' =>
    intro state state' hs
    simp only [draw, Test.holds_shifted hs]
    split
    · exact ih state state' hs
    · exact ih' state state' hs
  | loop test body ih =>
    intro state state' hs
    -- the rounds are bounded by what is left of the text, which is as much on both sides
    simp only [draw, hs.rounds]
    exact ih.loop state.rounds state state' hs
  | node body ih => exact fun state state' hs => (ih state state' hs).close
  | slot field body ih =>
    intro state state' hs
    have hbody := ih state state' hs
    simp only [draw, (hs.moveTo hbody.lexer).kind]
    exact hbody.fill _
  | chain head test field body ih ih' =>
    intro state state' hs
    have hhead := ih state state' hs
    simp only [draw, hhead.verdict, (hs.moveTo hhead.lexer).rounds]
    split
    · exact ih'.chain _ hs hhead
    · exact hhead.settle .failed
  | look probe yes no ih ih' ih'' =>
    intro state state' hs
    have hprobe := ih state state' hs
    simp only [draw, hprobe.isClean]
    split
    · exact (ih' state state' hs).instead hprobe
    · exact (ih'' state state' hs).instead hprobe
  | attempt body yes no ih ih' ih'' =>
    intro state state' hs
    have hbody := ih state state' hs
    simp only [draw, hbody.isClean]
    split
    · exact ih.andThen ih' state state' hs
    · exact (ih'' state state' hs).instead hbody
  | blame shape reading ih ih' =>
    intro state state' hs
    have hshape := ih state state' hs
    have hreading := ih' state state' hs
    refine ⟨rfl, rfl, ?_, rfl, hs.lexer, ?_⟩
    · simp only [draw, (hs.moveTo hshape.lexer).current, hreading.reports, List.head?_map]
      cases (reading.draw drawRule state).reports.head? <;> rfl
    · simp only [draw, hshape.misused, hreading.misused]
  | recover element ih =>
    intro state state' hs
    have helement := ih state state' hs
    simp only [draw, helement.failures]
    split
    · exact ⟨rfl, helement.shapes, helement.reports, rfl, helement.lexer, helement.misused⟩
    · exact helement.skipped hs
  | absorb body ih =>
    intro state state' hs
    have hbody := ih state state' hs
    exact ⟨hbody.verdict, hbody.shapes, hbody.reports, rfl, hbody.lexer, hbody.misused⟩
  | nested body ih =>
    intro state state' hs
    simp only [draw, hs.limit, hs.depth]
    split
    · refine shifted_failing hs ?_
      simp only [depthComplaint, hs.limit, hs.current]
      rfl
    · exact ih _ _ ⟨hs.lexer, rfl, rfl, hs.size⟩
  | call rule => exact hrules rule

/-- So do the rules of a grammar. -/
theorem shifts_drawRule (grammar : Rule → Phrase Rule) (budget : Nat) (rule : Rule) :
    Shifts distance (drawRule grammar budget rule) := by
  induction budget generalizing rule with
  | zero => exact fun state state' hs => ⟨rfl, rfl, rfl, rfl, hs.lexer, rfl⟩
  | succ budget ih => exact Shifts.phrase ih (grammar rule)

end Phrase

end ScriptTree

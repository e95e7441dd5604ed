import ScriptTree.Parser.Phrase
import ScriptTree.Proofs.Tree.Shape

/-!
Drawing: the meaning of phrases without events. A phrase is read from a lexer and a depth only, and
what it reads is returned as a whole: shapes, reports, failures and the lexer behind it. Taking a
reading back means to leave it out. That running a phrase records exactly what drawing it gives is
shown in `ScriptTree.Proofs.Parser.Record`.
-/

namespace ScriptTree

inductive Verdict where
  | failed | done
  | chose (kind : Kind)
  | node
  deriving DecidableEq, Repr, Inhabited

/-- What a phrase reads: how it came out, what it built and reported, how many of the reports are
failures, the lexer behind it, and whether it broke a rule of use or ran out of a bound. -/
structure Reading where
  verdict : Verdict
  shapes : List Shape
  reports : List Diagnostic
  failures : Nat
  lexer : Lexer
  misused : Bool
  deriving Repr, Inhabited

namespace ParseState

def bare (state : ParseState) : ParseState :=
  { state with events := #[], diagnostics := #[], failures := 0, misused := false }

def moveTo (state : ParseState) (lexer : Lexer) : ParseState :=
  { state with lexer }

def complaint (state : ParseState) (message : String) : Diagnostic :=
  if state.kind = .unknown then
    ⟨.lexical, "unknown character " ++ Kind.backquoted state.current.text, state.current.span⟩
  else
    ⟨.structural, message, state.current.span⟩

def depthComplaint (state : ParseState) : Diagnostic :=
  ⟨.tooDeep, "nesting exceeds the limit of " ++ toString state.limit ++ " levels",
    state.current.span⟩

end ParseState

def Event.leaf? : Event → Option Shape
  | .token held field => some (.leaf held field)
  | _ => none

namespace Reading

open ParseState

def stay (state : ParseState) (verdict : Verdict) : Reading :=
  { verdict, shapes := [], reports := [], failures := 0, lexer := state.lexer, misused := false }

/-- The lookahead is taken unless the text is at its end. -/
def taken (state : ParseState) (field : Option Field) : Reading :=
  if state.kind = .eof then stay state .done
  else
    { stay state .done with
      shapes := [.leaf state.current field]
      lexer := state.lexer.advance }

@[simp] theorem verdict_taken (state : ParseState) (field : Option Field) :
    (taken state field).verdict = .done := by
  unfold taken
  split <;> rfl

@[simp] theorem misused_taken (state : ParseState) (field : Option Field) :
    (taken state field).misused = false := by
  unfold taken
  split <;> rfl

def failing (state : ParseState) (report : Diagnostic) : Reading :=
  { stay state .failed with reports := [report], failures := 1 }

def andThen (first second : Reading) : Reading :=
  { verdict := second.verdict
    shapes := first.shapes ++ second.shapes
    reports := first.reports ++ second.reports
    failures := first.failures + second.failures
    lexer := second.lexer
    misused := first.misused || second.misused }

theorem andThen_assoc (a b c : Reading) : (a.andThen b).andThen c = a.andThen (b.andThen c) := by
  simp [andThen, Nat.add_assoc, Bool.or_assoc]

theorem stay_andThen (state : ParseState) (verdict : Verdict) (reading : Reading) :
    (stay state verdict).andThen reading = reading := by
  simp [andThen, stay]

def instead (reading dropped : Reading) : Reading :=
  { reading with misused := dropped.misused || reading.misused }

def isClean (reading : Reading) : Bool :=
  reading.verdict != .failed && reading.failures == 0

def close (reading : Reading) : Reading :=
  match reading.verdict with
  | .chose kind =>
    { reading with
      verdict := .node
      shapes := [.node kind none reading.shapes]
      misused := reading.misused || kind == .tombstone }
  | _ => { reading with verdict := .failed }

def fill (reading : Reading) (field : Field) : Reading :=
  match reading.verdict with
  | .node => { reading with shapes := Shape.fillLast field reading.shapes }
  | _ => reading

/-- A node is made around the last shape of a reading and what was read behind it. A body that
settles no kind breaks a rule of use. -/
def wrap (reading body : Reading) : Reading :=
  let around := reading.andThen body
  match body.verdict with
  | .chose kind =>
    { around with
      verdict := .node
      shapes := reading.shapes.dropLast ++
        [.node kind none (reading.shapes.getLast?.toList ++ body.shapes)]
      misused := around.misused || kind == .tombstone }
  | _ => { around with misused := true }

theorem close_lexer (reading : Reading) : reading.close.lexer = reading.lexer := by
  unfold close
  split <;> rfl

@[simp] theorem fill_lexer (reading : Reading) (field : Field) :
    (reading.fill field).lexer = reading.lexer := by
  unfold fill
  split <;> rfl

theorem wrap_lexer (reading body : Reading) : (reading.wrap body).lexer = body.lexer := by
  unfold wrap
  split <;> rfl

theorem failures_close (reading : Reading) : reading.close.failures = reading.failures := by
  unfold close
  split <;> rfl

theorem failures_fill (reading : Reading) (field : Field) :
    (reading.fill field).failures = reading.failures := by
  unfold fill
  split <;> rfl

theorem failures_wrap (reading body : Reading) :
    (reading.wrap body).failures = reading.failures + body.failures := by
  unfold wrap
  split <;> rfl

def skipped (state : ParseState) (dropped : Reading) : Reading :=
  let rest := state.bare.skipElement 0 true state.rounds
  { verdict := .done
    shapes := [.node .error none (rest.events.toList.filterMap Event.leaf?)]
    reports := dropped.reports.head?.toList
    failures := 0
    lexer := rest.lexer
    misused := dropped.misused }

end Reading

namespace Phrase

open ParseState Reading

variable {Rule : Type}

def drawLoop (test : ParseState → Bool) (step : ParseState → Reading) (state : ParseState) :
    Nat → Reading
  | 0 => { stay state .done with misused := true }
  | limit + 1 =>
    if test state then
      let reading := step state
      if reading.verdict = .failed then { reading with verdict := .done }
      else reading.andThen (drawLoop test step (state.moveTo reading.lexer) limit)
    else
      stay state .done

def drawChain (test : ParseState → Bool) (field : Kind → Field) (step : ParseState → Reading)
    (state : ParseState) (reading : Reading) : Nat → Reading
  | 0 => { reading with misused := true }
  | limit + 1 =>
    let state := state.moveTo reading.lexer
    if test state then
      let wrapped := (reading.fill (field state.kind)).wrap (step state)
      if wrapped.misused then wrapped else drawChain test field step state wrapped limit
    else
      reading

/-- The failures of a reading are among those of the chain that goes on from it. -/
theorem failures_le_drawChain (test : ParseState → Bool) (field : Kind → Field)
    (step : ParseState → Reading) (state : ParseState) (reading : Reading) (limit : Nat) :
    reading.failures ≤ (drawChain test field step state reading limit).failures := by
  induction limit generalizing state reading with
  | zero => exact Nat.le_refl _
  | succ limit ih =>
    have hle : reading.failures ≤
        ((reading.fill (field (state.moveTo reading.lexer).kind)).wrap
          (step (state.moveTo reading.lexer))).failures := by
      rw [failures_wrap, failures_fill]
      exact Nat.le_add_right _ _
    simp only [drawChain]
    split
    · split
      · exact hle
      · exact Nat.le_trans hle (ih _ _)
    · exact Nat.le_refl _

def draw (drawRule : Rule → ParseState → Reading) : Phrase Rule → ParseState → Reading
  | .done, state => stay state .done
  | .reject, state => stay state .failed
  | .take field, state => taken state field
  | .expect kind field, state =>
    if state.kind = kind then taken state field
    else failing state (state.complaint (state.missing kind.describe))
  | .close kind, state =>
    if state.kind = kind then taken state none
    else
      { stay state .done with
        reports := [⟨.structural, state.missing kind.describe, state.current.span⟩] }
  | .missing what, state => failing state (state.complaint (state.missing what))
  | .refuse message, state => failing state (state.complaint message)
  | .demand kind, state => { stay state .done with misused := state.kind != kind }
  | .relex mode, state => { stay state .done with lexer := state.lexer.relex mode }
  | .seq first second, state =>
    let reading := first.draw drawRule state
    reading.andThen (second.draw drawRule (state.moveTo reading.lexer))
  | .both first second, state =>
    let reading := first.draw drawRule state
    if reading.verdict = .failed then reading
    else reading.andThen (second.draw drawRule (state.moveTo reading.lexer))
  | .branch test yes no, state =>
    if test.holds state then yes.draw drawRule state else no.draw drawRule state
  | .loop test body, state =>
    drawLoop (fun state => test.holds state) (body.draw drawRule) state state.rounds
  | .choose kind, state => stay state (.chose kind)
  | .node body, state => (body.draw drawRule state).close
  | .slot field body, state =>
    let reading := body.draw drawRule state
    reading.fill (field (state.moveTo reading.lexer).kind)
  | .chain head test field body, state =>
    let reading := head.draw drawRule state
    if reading.verdict = .node then
      drawChain (fun state => test.holds state) field (body.draw drawRule) state reading
        (state.moveTo reading.lexer).rounds
    else
      { reading with verdict := .failed }
  | .look probe yes no, state =>
    let probed := probe.draw drawRule state
    (if probed.isClean then yes.draw drawRule state else no.draw drawRule state).instead probed
  | .attempt body yes no, state =>
    let tried := body.draw drawRule state
    if tried.isClean then tried.andThen (yes.draw drawRule (state.moveTo tried.lexer))
    else (no.draw drawRule state).instead tried
  | .blame shape reading, state =>
    let shaped := shape.draw drawRule state
    let read := reading.draw drawRule state
    { stay state .done with
      reports := [ambiguity (state.moveTo shaped.lexer).current.span read.reports.head?]
      misused := shaped.misused || read.misused }
  | .recover element, state =>
    let reading := element.draw drawRule state
    if reading.failures = 0 then { reading with verdict := .done } else skipped state reading
  | .absorb body, state => { body.draw drawRule state with failures := 0 }
  | .nested body, state =>
    if state.limit ≤ state.depth then failing state state.depthComplaint
    else body.draw drawRule { state with depth := state.depth + 1 }
  | .call rule, state => drawRule rule state

def drawRule (grammar : Rule → Phrase Rule) : Nat → Rule → ParseState → Reading
  | 0, _, state => { stay state .failed with misused := true }
  | budget + 1, rule, state => (grammar rule).draw (drawRule grammar budget) state

end Phrase

end ScriptTree

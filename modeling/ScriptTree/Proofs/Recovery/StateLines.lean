import ScriptTree.Proofs.Lexer.StateLine
import ScriptTree.Proofs.Recovery.Head

/-!
State lines on the way to the end of their heads. The sprite and the frames of a line are read in
modes of their own, so a line cannot be watched as other phrases are. It is followed word by word up
to its frames, and watched from there on.
-/

namespace ScriptTree

open Phrase ParseState

namespace Reading

variable {offset : Nat} {first second reading : Reading} {state : ParseState}

def ComplainsBy (offset : Nat) (reading : Reading) : Prop :=
  reading.misused = false → reading.failures ≠ 0 →
    ∃ report, reading.reports.head? = some report ∧ report.span.start ≤ offset

/-- What comes behind a complaint does not matter. -/
theorem ComplainsBy.andThen (h : first.ComplainsBy offset) (hfailed : first.failures ≠ 0)
    (second : Reading) : (first.andThen second).ComplainsBy offset := by
  intro hkept _
  obtain ⟨report, hreport, hle⟩ := h (Bool.or_eq_false_iff.mp hkept).1 hfailed
  refine ⟨report, ?_, hle⟩
  simp only [Reading.andThen, List.head?_append, hreport, Option.some_or]

/-- What comes behind and does not fail does not matter. -/
theorem ComplainsBy.andThen_fitting (h : first.ComplainsBy offset) (hfits : second.failures = 0) :
    (first.andThen second).ComplainsBy offset := by
  intro hkept hfailed
  refine h.andThen ?_ second hkept hfailed
  rwa [Reading.andThen, hfits] at hfailed

/-- What comes first does not matter if nothing was wrong with it. -/
theorem ComplainsBy.behind (h : second.ComplainsBy offset) (hfailures : first.failures = 0)
    (hreports : first.reports = []) : (first.andThen second).ComplainsBy offset := by
  intro hkept hfailed
  simp only [Reading.andThen, hfailures, hreports, Nat.zero_add, List.nil_append] at hfailed ⊢
  exact h (Bool.or_eq_false_iff.mp hkept).2 hfailed

theorem ComplainsBy.close (h : reading.ComplainsBy offset) : reading.close.ComplainsBy offset := by
  intro hkept hfailed
  rw [failures_close] at hfailed
  rw [reports_close]
  exact h (misused_of_close hkept) hfailed

theorem ComplainsBy.fill (h : reading.ComplainsBy offset) (field : Field) :
    (reading.fill field).ComplainsBy offset := by
  intro hkept hfailed
  rw [failures_fill] at hfailed
  rw [reports_fill]
  exact h (misused_of_fill hkept) hfailed

theorem complainsBy_failing (h : state.current.span.start ≤ offset) (message : String) :
    (failing state (state.complaint message)).ComplainsBy offset := by
  intro _ _
  refine ⟨_, rfl, ?_⟩
  unfold complaint
  split <;> exact h

end Reading

namespace Grammar

open Reading

variable {ending : Ending} {offset : Nat} {state : ParseState} {lexer : Lexer}
  {drawRule : Rule → ParseState → Reading}

/-- A token that is missing is complained about, and otherwise what comes behind it matters. -/
theorem complainsBy_expect {kind : Kind} {field : Field} {rest : Clause} (heof : kind ≠ .eof)
    (hmissing : state.kind ≠ kind → state.current.span.start ≤ offset)
    (hrest : state.kind = kind →
      (rest.draw drawRule (state.moveTo state.lexer.advance)).ComplainsBy offset) :
    ((Phrase.seq (expectIn kind field) rest).draw drawRule state).ComplainsBy offset ∧
      ((Phrase.both (expectIn kind field) rest).draw drawRule state).ComplainsBy offset := by
  simp only [expectIn, draw]
  by_cases hkind : state.kind = kind
  · let fitting : Reading := { stay state .done with
      shapes := [.leaf state.current (some field)]
      lexer := state.lexer.advance }
    have htaken : taken state (some field) = fitting := if_neg (hkind ▸ heof)
    have hboth : (fitting.andThen (rest.draw drawRule (state.moveTo fitting.lexer))).ComplainsBy
        offset := (hrest hkind).behind rfl rfl
    have hfitting : fitting.verdict ≠ .failed := by
      intro hfailed
      cases hfailed
    rw [if_pos hkind, htaken, if_neg hfitting]
    exact ⟨hboth, hboth⟩
  · let failed := failing state (state.complaint (state.missing kind.describe))
    have hfailing : failed.ComplainsBy offset := complainsBy_failing (hmissing hkind) _
    rw [if_neg hkind, if_pos (show failed.verdict = .failed from rfl)]
    exact ⟨hfailing.andThen Nat.one_ne_zero _, hfailing⟩

theorem complainsBy_relex {mode : LexMode} {rest : Clause}
    (h : (rest.draw drawRule (state.moveTo (state.lexer.relex mode))).ComplainsBy offset) :
    ((Phrase.seq (.relex mode) rest).draw drawRule state).ComplainsBy offset :=
  h.behind rfl rfl

theorem isOpen_watch (ending : Ending) : (Tail.nothing.watch ending).IsOpen where
  bars := rfl
  stop := by cases ending <;> decide
  allows := by
    intro kind hkind
    refine Tail.contains_allowed ?_ (KindSet.contains_empty _)
    simpa [or_comm, or_left_comm, or_assoc] using hkind

/-- What can be watched from a place on the way to the stop complains there or before it. -/
theorem complainsBy_of_heed {tail : Tail} {origin : Nat} {phrase : Clause}
    (hheed : (phrase.heed (tail.watch ending) (passages tail ending)
      (tail.watch ending).vague).isSome = true)
    (hstands : (tail.watch ending).Stands origin offset state.lexer) (budget : Nat) :
    (phrase.draw (Phrase.drawRule grammar budget) state).ComplainsBy offset := by
  obtain ⟨outlook, hheed⟩ := Option.isSome_iff_exists.mp hheed
  have hheeds : Heeds (tail.watch ending) origin offset
      (phrase.draw (Phrase.drawRule grammar budget)) (tail.watch ending).vague outlook :=
    heeds_draw (accounts_drawRule grammar budget)
      (heeds_drawRule (keepsWatch_grammar tail ending) budget) hheed
  exact fun hkept => (hheeds state hstands.vague_sees hstands hkept).of_failures

def stateRest : Clause :=
  steps [stateDuration, stateModifiers, stateAction]

theorem isSome_heed_stateRest (ending : Ending) :
    (stateRest.heed (Tail.nothing.watch ending) (passages .nothing ending)
      (Tail.nothing.watch ending).vague).isSome = true := by
  cases ending <;> decide +kernel

/-- A duration is missing where a token comes that none starts with. -/
theorem stateDuration_missing (h : state.kind ∈ Lexer.strayKinds)
    (hle : state.current.span.start ≤ offset) :
    (stateDuration.draw drawRule state).failures ≠ 0 ∧
      (stateDuration.draw drawRule state).ComplainsBy offset := by
  have hkinds : ∀ kind ∈ Lexer.strayKinds, kind ≠ .name ∧
      (KindSet.ofList [.intNumber, .floatNumber, .leftParen, .minus, .plus]).contains kind = false ∧
      (KindSet.single .name).contains kind = false := by decide +kernel
  obtain ⟨hname, hnumber, hsingle⟩ := hkinds _ h
  have hrandom : (Test.and (.word ["random"]) (.next .leftParen)).holds state = false := by
    simp [Test.holds, hname]
  have hword : (Test.sees .name).holds state = false := hsingle
  have hvalue : (Test.seesAny [.intNumber, .floatNumber, .leftParen, .minus, .plus]).holds state =
      false := hnumber
  have hdraw : stateDuration.draw drawRule state =
      (((failing state (state.complaint (state.missing "a state duration"))).andThen
        (stay state (.chose .stateDuration))).close).fill .duration := by
    simp only [stateDuration, inSlot, nodeOf, cases, List.foldr, steps, List.cons_append,
      List.nil_append, draw, hrandom, hword, hvalue]
    rfl
  rw [hdraw]
  constructor
  · rw [failures_fill, failures_close]
    exact Nat.one_ne_zero
  · exact ((complainsBy_failing hle _).andThen Nat.one_ne_zero _).close.fill _

/-- The words behind the frames of a line that does not slip. -/
theorem complainsBy_stateRest
    (h : (Tail.nothing.watch ending).Nears offset state.lexer ∨
      state.kind ∈ Lexer.strayKinds ∧ state.current.span.start ≤ offset)
    (hplaced : state.lexer.Placed) (hmode : state.lexer.mode = .plain) (budget : Nat) :
    (stateRest.draw (Phrase.drawRule grammar budget) state).ComplainsBy offset := by
  rcases h with hnears | ⟨hkind, hle⟩
  · exact complainsBy_of_heed (isSome_heed_stateRest ending)
      ⟨hplaced, Nat.zero_le _, hnears, fun _ => Or.inl hmode⟩ budget
  · obtain ⟨hfailed, hcomplains⟩ := @stateDuration_missing _ _ (Phrase.drawRule grammar budget)
      hkind hle
    exact hcomplains.andThen hfailed _

/-- A line that does not slip complains at the end of its head or before it. -/
theorem complainsBy_stateLine (hplaced : state.lexer.Placed)
    (hnears : (Tail.nothing.watch ending).Nears offset state.lexer)
    (hslips : ¬ state.lexer.Slips) (budget : Nat) :
    (stateLine.draw (Phrase.drawRule grammar budget) state).ComplainsBy offset := by
  refine ComplainsBy.close (complainsBy_relex (ComplainsBy.andThen_fitting ?_ rfl))
  let sprite := state.moveTo (state.lexer.relex .sprite)
  let frames := state.moveTo state.lexer.atFrames
  refine (@complainsBy_expect offset sprite _ _ _ _ (by decide) (fun _ => ?_)
    fun hsprite => complainsBy_relex ?_).2
  · exact hplaced.relex_span_start .sprite ▸ hnears.le hplaced
  · rcases hnears.stateWords (isOpen_watch ending) hplaced hsprite hslips with
      ⟨hkind, hle⟩ | ⟨hkind, hrest⟩
    · exact (@complainsBy_expect offset frames _ _ _ _ (by decide) (fun _ => hle)
        fun h => absurd h hkind).1
    · refine (@complainsBy_expect offset frames _ _ _ _ (by decide) (fun h => absurd hkind h)
        fun _ => ?_).1
      exact @complainsBy_stateRest ending offset (state.moveTo state.lexer.atFrames.advance) hrest
        (Lexer.advance_placed _) rfl budget

def stateJump : Clause :=
  cases [(.label, nodeOf .stateLabel [dottedName .name, token]), (flowStart, stateFlow)] .done

theorem isSome_heed_stateJump (ending : Ending) :
    (stateJump.heed (Tail.nothing.watch ending) (passages .nothing ending)
      (Tail.nothing.watch ending).vague).isSome = true := by
  cases ending <;> decide +kernel

/-- An element of a state block that does not slip complains at the end of its head or before it. -/
theorem complainsBy_stateItem (hplaced : state.lexer.Placed)
    (hnears : (Tail.nothing.watch ending).Nears offset state.lexer)
    (hslips : ¬ state.lexer.Slips) (budget : Nat) :
    (stateItem.draw (Phrase.drawRule grammar budget) state).ComplainsBy offset := by
  have hjump : (stateJump.draw (Phrase.drawRule grammar budget) state).ComplainsBy offset :=
    complainsBy_of_heed (isSome_heed_stateJump ending) (hnears.stands hplaced) budget
  have hline := complainsBy_stateLine hplaced hnears hslips budget
  simp only [stateJump, stateItem, cases, List.foldr, draw] at hjump ⊢
  split
  · next hlabel => rwa [if_pos hlabel] at hjump
  · next hlabel =>
    rw [if_neg hlabel] at hjump
    split
    · next hflow => rwa [if_pos hflow] at hjump
    · exact hline

end Grammar

end ScriptTree

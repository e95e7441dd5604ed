import ScriptTree.Proofs.Grammar.File
import ScriptTree.Proofs.Parser.Runs

/-!
Recovery makes progress. An element of a repeated context takes a token and leaves no failure
behind, whether it fits or is skipped. Hence every repetition ends, and so does the parse of every
text.
-/

namespace ScriptTree

def Phrase.elements {Rule : Type} : Phrase Rule → List (Phrase Rule)
  | .recover element => element :: element.elements
  | .seq first second | .both first second => first.elements ++ second.elements
  | .branch _ yes no => yes.elements ++ no.elements
  | .chain head _ _ body => head.elements ++ body.elements
  | .look probe yes no | .attempt probe yes no => probe.elements ++ yes.elements ++ no.elements
  | .blame shape reading => shape.elements ++ reading.elements
  | .loop _ body | .node body | .slot _ body | .absorb body | .nested body => body.elements
  | _ => []

namespace Grammar

open Sight Phrase Reading ParseState

/-- The elements of the repeated contexts of the grammar. -/
def repeated : List Clause :=
  [item, .call .member, .call .statement, stateItem, defaultItem, enumerator]

/-- The elements of all repeated contexts are on the list. -/
theorem elements_grammar (rule : Rule) : ∀ element ∈ (grammar rule).elements,
    element ∈ repeated := by
  cases rule with
  | expression least => cases least <;> exact nofun
  | compound =>
    show ∀ element ∈ [Phrase.call Rule.statement], element ∈ repeated
    simp [repeated]
  | statement =>
    show ∀ element ∈ [Phrase.call Rule.statement], element ∈ repeated
    simp [repeated]
  | member =>
    show ∀ element ∈ [enumerator, Phrase.call Rule.member, stateItem, defaultItem],
      element ∈ repeated
    simp [repeated]
  | _ => exact nofun

def unfinished : Sight :=
  seeing (.without .full (.single .eof))

theorem fulfils_repeated : ∀ element ∈ repeated, fulfils (.recover element) 8 .any
    ⟨unfinished, { Exits.nowhere with done := some moved }⟩ = true := by
  simp only [repeated, List.forall_mem_cons]
  refine ⟨?_, ?_, ?_, ?_, ?_, ?_, nofun⟩ <;> decide +kernel

variable {text : String} {state : ParseState}

/-- Recovery from an element that a state can afford, for what its scan needs. -/
theorem covers_of_fulfils {element : Clause} {bound : Nat}
    (he : fulfils (.recover element) bound .any
      ⟨unfinished, { Exits.nowhere with done := some moved }⟩ = true)
    (hreached : state.lexer.Reached text) (hsize : state.size = text.utf8ByteSize)
    (heof : state.kind ≠ .eof) {budget : Nat}
    (hb : 8 * (state.limit - state.depth) + bound ≤ budget) :
    Exits.Covers { Exits.nowhere with done := some moved } .any state.lexer.start.offset state.bare
      ((recover element).draw (drawRule grammar budget) state.bare) := by
  refine follows_of_fulfils (accounts_drawRule grammar _) (holds_book _) he _ _ ?_ nofun
  refine ⟨⟨KindSet.contains_full _, ?_, KindSet.contains_full _, KindSet.contains_full _, nofun,
    nofun, nofun⟩, ⟨text, hsize, hreached⟩, Nat.le_refl _, hb⟩
  rw [show unfinished.here = KindSet.without .full (.single .eof) from rfl,
    KindSet.contains_without, KindSet.contains_single, KindSet.contains_full, Bool.true_and,
    Bool.not_eq_true', beq_eq_false_iff_ne]
  exact Ne.symm heof

/-- Recovery from an element that a state can afford. -/
theorem covers_recover {element : Clause} (he : element ∈ repeated)
    (hreached : state.lexer.Reached text) (hsize : state.size = text.utf8ByteSize)
    (heof : state.kind ≠ .eof) {budget : Nat} (hb : 8 * (state.limit - state.depth) + 8 ≤ budget) :
    Exits.Covers { Exits.nowhere with done := some moved } .any state.lexer.start.offset state.bare
      ((recover element).draw (drawRule grammar budget) state.bare) :=
  covers_of_fulfils (fulfils_repeated _ he) hreached hsize heof hb

theorem failures_recover {drawRule : Rule → ParseState → Reading} (element : Clause)
    (state : ParseState) : ((recover element).draw drawRule state).failures = 0 := by
  simp only [draw]
  split
  · next hf => exact hf
  · rfl

/-- Recovery that is known to take a token never takes the end of the text, and keeps failures and
depth. -/
theorem run_recover_of_covers {element : Clause} (hreached : state.lexer.Reached text)
    {budget : Nat}
    (hcovers : Exits.Covers { Exits.nowhere with done := some moved } .any
      state.lexer.start.offset state.bare
      ((recover element).draw (drawRule grammar budget) state.bare)) :
    ∃ after tokens, (recover element).run (runRule grammar budget) state = (.done, after) ∧
      Runs grammar (.read (.recover element)) state (.done, after) ∧
      Lexer.Reads state.lexer tokens after.lexer ∧ tokens ≠ [] ∧
      (∀ token ∈ tokens, token.kind ≠ .eof) ∧
      state.lexer.start.offset < after.lexer.start.offset ∧ after.failures = state.failures ∧
      after.depth = state.depth ∧ after.limit = state.limit ∧ after.size = state.size := by
  have hrun := Adequate.phrase (describes_runRule grammar budget) (adequate_runRule grammar budget)
    (recover element) state hcovers.keeps
  obtain ⟨growth, -, -, hmarks, hresult⟩ :=
    Describes.phrase (describes_runRule grammar budget) (recover element) state hcovers.keeps
  obtain ⟨tokens, hreads, hne, -⟩ :=
    (Accounts.phrase (accounts_drawRule grammar budget) (recover element) state.bare).reads
  obtain ⟨known, hknown, hsees⟩ := hcovers.finds
  have hverdict : ((recover element).draw (drawRule grammar budget) state.bare).verdict =
      .done := by
    cases hv : ((recover element).draw (drawRule grammar budget) state.bare).verdict <;>
      rw [hv] at hknown <;> first | rfl | cases hknown
  rw [hverdict] at hknown hmarks
  obtain rfl := Option.some.inj hknown
  have hlt : state.lexer.start.offset <
      ((recover element).draw (drawRule grammar budget) state.bare).lexer.start.offset :=
    hsees.moved rfl
  have hdone : (recover element).run (runRule grammar budget) state =
      (.done, state.extend ((recover element).draw (drawRule grammar budget) state.bare) growth) :=
    Prod.ext hmarks hresult
  rw [hdone] at hrun
  refine ⟨_, tokens, hdone, hrun, hreads, ?_, hne, hlt, ?_, rfl, rfl, rfl⟩
  · rintro rfl
    have hplace := (hreads.tiled hreached.placed).eq_of_nil
    rw [hplace] at hlt
    exact Nat.lt_irrefl _ hlt
  · simp [extend, failures_recover]

/-- Recovery takes a token, but never the end of the text, and keeps failures and depth. -/
theorem run_recover {element : Clause} (he : element ∈ repeated)
    (hreached : state.lexer.Reached text) (hsize : state.size = text.utf8ByteSize)
    (heof : state.kind ≠ .eof) {budget : Nat} (hb : 8 * (state.limit - state.depth) + 8 ≤ budget) :
    ∃ after tokens, (recover element).run (runRule grammar budget) state = (.done, after) ∧
      Runs grammar (.read (.recover element)) state (.done, after) ∧
      Lexer.Reads state.lexer tokens after.lexer ∧ tokens ≠ [] ∧
      (∀ token ∈ tokens, token.kind ≠ .eof) ∧
      state.lexer.start.offset < after.lexer.start.offset ∧ after.failures = state.failures ∧
      after.depth = state.depth ∧ after.limit = state.limit ∧ after.size = state.size :=
  run_recover_of_covers hreached (covers_recover he hreached hsize heof hb)

/-- A repetition of an element ends where its test fails, if the test fails at the end of the
text. -/
theorem run_repetition {element : Clause} (he : element ∈ repeated) {test : Test}
    (htest : ∀ state : ParseState, test.holds state = true → state.kind ≠ .eof) {budget : Nat}
    {step : ParseState → Outcome × ParseState} (limit : Nat)
    (hstep : ∀ other : ParseState, other.limit = state.limit →
      step other = (recover element).run (runRule grammar budget) other)
    (hreached : state.lexer.Reached text) (hsize : state.size = text.utf8ByteSize)
    (hb : 8 * (state.limit - state.depth) + 8 ≤ budget)
    (hl : state.size - state.lexer.start.offset < limit) :
    ∃ after, loopWhile (fun state => test.holds state) step state limit = after ∧
      Runs grammar (.read (.loop test (.recover element))) state (.done, after) ∧
      test.holds after = false ∧ after.failures = state.failures ∧ after.depth = state.depth := by
  induction limit generalizing state with
  | zero => exact absurd hl (Nat.not_lt_zero _)
  | succ limit ih =>
    rw [loopWhile_succ]
    by_cases ht : test.holds state = true
    · obtain ⟨after, tokens, hrun, hruns, hreads, -, -, hlt, hfailures, hdepth, hlimit, hsize'⟩ :=
        run_recover he hreached hsize (htest state ht) hb
      have hplace : after.lexer.start.offset ≤ state.size := by
        rw [hsize]
        exact (hreached.reads hreads).within.offset_le
      obtain ⟨last, hlast, hrest, hstop, hfailures', hdepth'⟩ :=
        ih (fun other h => hstep other (h.trans hlimit)) (hreached.reads hreads)
          (hsize'.trans hsize) (by rw [hlimit, hdepth]; exact hb) (by omega)
      rw [if_pos ht, hstep state rfl, hrun, if_neg (by simp)]
      exact ⟨last, hlast, .loop_again ht hruns (by simp) hrest, hstop,
        hfailures'.trans hfailures, hdepth'.trans hdepth⟩
    · rw [if_neg ht]
      exact ⟨state, rfl, .loop_stop (Bool.eq_false_iff.mpr ht), Bool.eq_false_iff.mpr ht, rfl, rfl⟩

/-- The items of a text are read in a run without bounds. -/
theorem runs_fileItems (text : String) (limit : Nat) :
    ∃ last, Runs grammar (.read fileItems) (ofText text limit).openNode (.done, last) ∧
      last.kind = .eof ∧ last.failures = 0 ∧ last.depth = 0 ∧
      readFile text limit = (((last.demand .eof).push none).endNode 0 (.chose .sourceFile)).2 := by
  obtain ⟨last, hlast, hruns, hstop, hfailures, hdepth⟩ :=
    run_repetition (show item ∈ repeated by simp [repeated])
      (fun state ht => bne_iff_ne.mp (holds_not_eof state ▸ ht))
      (ofText text limit).openNode.rounds
      (fun other h => show readItem other =
        (recover item).run (runRule grammar (ruleBudget limit)) other by rw [readItem, h]; rfl)
      (Lexer.reached_ofText text) rfl (Nat.le_refl _) (Nat.lt_succ_self _)
  have hkind : last.kind = .eof := by
    rw [holds_not_eof] at hstop
    simpa using hstop
  refine ⟨last, hruns, hkind, hfailures, hdepth, ?_⟩
  rw [readFile, ← hlast]
  simp only [holds_not_eof]

end Grammar

theorem Lexer.Reached.advance_lt {text : String} {lexer : Lexer} (h : lexer.Reached text)
    (hk : lexer.current.kind ≠ .eof) {limit : Nat}
    (hl : text.utf8ByteSize - lexer.start.offset < limit + 1) :
    lexer.advance.Reached text ∧ text.utf8ByteSize - lexer.advance.start.offset < limit := by
  have hlt : lexer.start.offset < lexer.advance.start.offset := h.placed.offset_lt hk
  have hadvance := h.reads (.take (.refl lexer))
  have hle := hadvance.within.offset_le
  exact ⟨hadvance, by omega⟩

/-- Skipping an element ends before its bound. -/
theorem ParseState.skipElement_add {text : String} {state : ParseState}
    (h : state.lexer.Reached text) {limit : Nat}
    (hl : text.utf8ByteSize - state.lexer.start.offset < limit) (braces : Nat) (isFirst : Bool)
    (more : Nat) :
    state.skipElement braces isFirst (limit + more) = state.skipElement braces isFirst limit := by
  induction limit generalizing state braces isFirst with
  | zero => exact absurd hl (Nat.not_lt_zero _)
  | succ limit ih =>
    rw [Nat.add_right_comm]
    by_cases heof : state.kind = .eof
    · simp [skipElement, heof]
    · have hdiscard : state.discard.lexer = state.lexer.advance := by
        rw [discard, if_neg heof]
      obtain ⟨hadvance, hlt⟩ := h.advance_lt heof hl
      rw [← hdiscard] at hadvance hlt
      have hrest (braces' : Nat) := ih hadvance hlt braces' false
      simp only [skipElement, hrest]

/-- Looking for the end of a label ends before its bound. -/
theorem Test.labelTail_add {text : String} {lexer : Lexer} (h : lexer.Reached text) {limit : Nat}
    (hl : text.utf8ByteSize - lexer.start.offset < limit) (more : Nat) :
    labelTail lexer (limit + more) = labelTail lexer limit := by
  induction limit generalizing lexer with
  | zero => exact absurd hl (Nat.not_lt_zero _)
  | succ limit ih =>
    rw [Nat.add_right_comm, labelTail, labelTail]
    split
    · next hdot =>
      by_cases hname : lexer.advance.current.kind = .name
      · obtain ⟨hadvance, hlt⟩ := h.advance_lt (by rw [hdot]; decide) hl
        obtain ⟨hadvance', hlt'⟩ :=
          hadvance.advance_lt (by rw [hname]; decide) (Nat.lt_succ_of_lt hlt)
        rw [ih hadvance' hlt']
      · rw [beq_eq_false_iff_ne.mpr hname]
        rfl
    · rfl

namespace Grammar

open Phrase ParseState

/-- Recovery makes progress and everything terminates. Where the text is not at its end, recovery
from an element of a repeated context takes a token, but never the end of the text, and keeps
failures and depth. The elements of the grammar are all of this sort. Hence a repetition of such an
element ends where its test fails, and the items of a text end where the text does. All runs are
runs without bounds; neither skipping an element nor looking for a label reaches its bound. -/
theorem recovery_progresses (text : String) :
    (∀ element ∈ repeated, ∀ state : ParseState, state.lexer.Reached text →
      state.size = text.utf8ByteSize → state.kind ≠ .eof →
      ∃ after tokens, Runs grammar (.read (.recover element)) state (.done, after) ∧
        (∀ budget, 8 * (state.limit - state.depth) + 8 ≤ budget →
          (recover element).run (runRule grammar budget) state = (.done, after)) ∧
        Lexer.Reads state.lexer tokens after.lexer ∧ tokens ≠ [] ∧
        (∀ token ∈ tokens, token.kind ≠ .eof) ∧
        state.lexer.start.offset < after.lexer.start.offset ∧
        after.failures = state.failures ∧ after.depth = state.depth) ∧
    (∀ rule, ∀ element ∈ (grammar rule).elements, element ∈ repeated) ∧
    (∀ element ∈ repeated, ∀ test : Test,
      (∀ state : ParseState, test.holds state = true → state.kind ≠ .eof) →
      ∀ state : ParseState, state.lexer.Reached text → state.size = text.utf8ByteSize →
      ∃ after, Runs grammar (.read (.loop test (.recover element))) state (.done, after) ∧
        (∀ budget, 8 * (state.limit - state.depth) + 8 ≤ budget →
          (loop test (.recover element)).run (runRule grammar budget) state = (.done, after)) ∧
        test.holds after = false ∧ after.failures = state.failures ∧ after.depth = state.depth) ∧
    (∀ limit, ∃ last, Runs grammar (.read fileItems) (ofText text limit).openNode (.done, last) ∧
      last.kind = .eof ∧ last.failures = 0 ∧ last.depth = 0 ∧
      readFile text limit =
        (((last.demand .eof).push none).endNode 0 (.chose .sourceFile)).2) ∧
    (∀ state : ParseState, state.lexer.Reached text → state.size = text.utf8ByteSize →
      ∀ more, (∀ braces isFirst, state.skipElement braces isFirst (state.rounds + more) =
          state.skipElement braces isFirst state.rounds) ∧
        (state.kind ≠ .eof → Test.labelTail state.lexer.advance (state.rounds + more) =
          Test.labelTail state.lexer.advance state.rounds)) := by
  refine ⟨?_, elements_grammar, ?_, runs_fileItems text, ?_⟩
  · intro element he state hreached hsize heof
    obtain ⟨after, tokens, -, hruns, hreads, hne, heof', hlt, hfailures, hdepth, -⟩ :=
      run_recover he hreached hsize heof (Nat.le_refl _)
    refine ⟨after, tokens, hruns, ?_, hreads, hne, heof', hlt, hfailures, hdepth⟩
    intro budget hb
    obtain ⟨after', -, hrun', hruns', -⟩ := run_recover he hreached hsize heof hb
    rw [hrun', hruns'.unique hruns]
  · intro element he test htest state hreached hsize
    have hrounds : state.size - state.lexer.start.offset < state.rounds := Nat.lt_succ_self _
    obtain ⟨after, -, hruns, hstop, hfailures, hdepth⟩ :=
      run_repetition he htest state.rounds (fun _ _ => rfl) hreached hsize (Nat.le_refl _) hrounds
    refine ⟨after, hruns, ?_, hstop, hfailures, hdepth⟩
    intro budget hb
    obtain ⟨after', hrun', hruns', -⟩ :=
      run_repetition he htest state.rounds (fun _ _ => rfl) hreached hsize hb hrounds
    rw [← hruns'.unique hruns, ← hrun']
    rfl
  · intro state hreached hsize more
    have hl : text.utf8ByteSize - state.lexer.start.offset < state.rounds := by
      rw [← hsize]
      exact Nat.lt_succ_self _
    refine ⟨fun braces isFirst => skipElement_add hreached hl braces isFirst more, fun heof => ?_⟩
    obtain ⟨hadvance, hlt⟩ := hreached.advance_lt heof (Nat.lt_succ_of_lt hl)
    exact Test.labelTail_add hadvance hlt more

/-- A member of which only a name is there is skipped. -/
theorem recovery_progresses_at_name : ∃ after tokens,
    Runs grammar (.read (.recover (.call .member))) (ofText "a" 0) (.done, after) ∧
      Lexer.Reads (Lexer.ofText "a") tokens after.lexer ∧ tokens ≠ [] := by
  obtain ⟨hrecover, -⟩ := recovery_progresses "a"
  obtain ⟨after, tokens, hruns, -, hreads, hne, -⟩ := hrecover (.call .member)
    (by simp [repeated]) (ofText "a" 0) (Lexer.reached_ofText "a") rfl (by decide +kernel)
  exact ⟨after, tokens, hruns, hreads, hne⟩

end Grammar

end ScriptTree

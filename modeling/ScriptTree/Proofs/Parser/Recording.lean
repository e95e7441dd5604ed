import ScriptTree.Proofs.Parser.Record
import ScriptTree.Proofs.Parser.Skip

/-!
Running a phrase records the reading that drawing it gives, as long as no rule of use is broken and
no bound runs out.
-/

namespace ScriptTree

namespace Growth

def ofTokens (tokens : List Token) : Growth :=
  tokens.foldl (fun growth held => growth.token held none) .nil

theorem foldl_token (tokens : List Token) (growth : Growth) (h : growth.IsSound) :
    (tokens.foldl (fun growth held => growth.token held none) growth).IsSound ∧
    (tokens.foldl (fun growth held => growth.token held none) growth).shapes =
      growth.shapes ++ tokens.map (Shape.leaf · none) ∧
    (tokens.foldl (fun growth held => growth.token held none) growth).events none =
      growth.events none ++ tokens.map (Event.token · none) := by
  induction tokens generalizing growth with
  | nil => simp [h]
  | cons held rest ih => simpa [shapes, events] using ih (growth.token held none) h

theorem isSound_ofTokens (tokens : List Token) : (ofTokens tokens).IsSound :=
  (foldl_token tokens .nil trivial).1

theorem shapes_ofTokens (tokens : List Token) :
    (ofTokens tokens).shapes = tokens.map (Shape.leaf · none) := by
  rw [ofTokens, (foldl_token tokens .nil trivial).2.1, shapes, List.nil_append]

theorem events_ofTokens (tokens : List Token) :
    (ofTokens tokens).events none = tokens.map (Event.token · none) := by
  rw [ofTokens, (foldl_token tokens .nil trivial).2.2, events, List.nil_append]

end Growth

namespace Reading

open ParseState

/-- A report that is no failure. -/
theorem recorded_report (state : ParseState) (diagnostic : Diagnostic) :
    Recorded state { stay state.bare .done with reports := [diagnostic] }
      (.done, state.report diagnostic) := by
  refine ⟨.nil, trivial, rfl, rfl, ?_⟩
  simp [extend, report, stay, bare, Growth.events]

/-- What a skipped element becomes. -/
theorem skipped_eq (state : ParseState) (dropped : Reading) {tokens : List Token} {last : Lexer}
    (h : Skips state.lexer tokens last (skipElement 0 true · state.rounds)) :
    skipped state dropped =
      { verdict := .done
        shapes := [.node .error none (tokens.map fun token => .leaf token.cleared none)]
        reports := dropped.reports.head?.toList
        failures := 0
        lexer := last
        misused := dropped.misused } := by
  simp only [skipped, h.eq state.bare rfl]
  simp [bare, Event.leaf?, Function.comp_def]

/-- An element that failed is skipped. -/
theorem recorded_skipFailed (state : ParseState) (dropped : Reading) (growth : Growth) :
    Recorded state (skipped state.bare dropped)
      (.done, (state.extend dropped growth).skipFailed state.checkpoint) := by
  obtain ⟨tokens, last, hs, _⟩ := skips_skipElement state.lexer 0 true state.rounds
  let reported : ParseState :=
    { state with diagnostics := state.diagnostics ++ dropped.reports.head?.toList.toArray }
  have hreported : Recorded state
      { stay state.bare .done with reports := dropped.reports.head?.toList }
      (.done, reported) := by
    refine ⟨.nil, trivial, rfl, rfl, ?_⟩
    simp [reported, extend, stay, bare, Growth.events]
  have hskip : Recorded reported.openNode
      { verdict := .chose .error
        shapes := tokens.map fun token => .leaf token.cleared none
        reports := []
        failures := 0
        lexer := last
        misused := false }
      (.chose .error, reported.openNode.skipElement 0 true state.rounds) := by
    refine ⟨.ofTokens (tokens.map Token.cleared), Growth.isSound_ofTokens _, ?_, rfl, ?_⟩
    · simp [Growth.shapes_ofTokens]
    · show reported.openNode.skipElement 0 true state.rounds = _
      rw [hs.eq reported.openNode rfl]
      simp [extend, Growth.events_ofTokens, Function.comp_def]
  have hfailed : (state.extend dropped growth).skipFailed state.checkpoint =
      ((reported.openNode.skipElement 0 true state.rounds).endNode reported.mark
        (.chose .error)).2 := by
    simp only [skipFailed, firstReportSince_extend, rewind_extend]
    cases h : dropped.reports.head? with
    | none =>
      have hr : reported = state := by simp [reported, h]
      rw [hr]
      rfl
    | some first =>
      have hr : reported = state.report first := by simp [reported, h, report]
      rw [hr]
      rfl
  obtain ⟨growth', hsound, hshapes, _, hresult⟩ := hreported.andThen (hskip.close rfl)
  rw [skipped_eq state.bare dropped hs, hfailed]
  refine ⟨growth', hsound, hshapes, rfl, hresult.trans ?_⟩
  simp [extend, Reading.andThen, close_of_chose, stay]

end Reading

theorem Reading.Recorded.failed_iff {state : ParseState} {reading : Reading}
    {result : Outcome × ParseState} (h : Recorded state reading result) :
    result.1 = .failed ↔ reading.verdict = .failed := by
  obtain ⟨growth, _, _, hmarks, _⟩ := h
  cases hv : reading.verdict <;> rw [hv] at hmarks
  · simpa using hmarks
  · simp [show result.1 = .done from hmarks]
  · simp [show result.1 = .chose _ from hmarks]
  · obtain ⟨_, mark, kind, he, _⟩ := hmarks
    simp [he]

theorem Reading.Recorded.exists_node {state after : ParseState} {reading : Reading}
    {outcome : Outcome} (h : Recorded state reading (outcome, after))
    (hv : reading.verdict = .node) : ∃ mark kind, outcome = .node mark kind := by
  obtain ⟨growth, _, _, hmarks, _⟩ := h
  rw [hv] at hmarks
  obtain ⟨_, mark, kind, he, _⟩ := hmarks
  exact ⟨mark, kind, he⟩

theorem Reading.Recorded.verdict_of_node {state after : ParseState} {reading : Reading} {mark : Nat}
    {kind : Kind} (h : Recorded state reading (.node mark kind, after)) :
    reading.verdict = .node := by
  obtain ⟨growth, _, _, hmarks, _⟩ := h
  cases hv : reading.verdict <;> rw [hv] at hmarks <;> first | rfl | cases hmarks

theorem Reading.Recorded.bare {state : ParseState} {reading : Reading}
    {result : Outcome × ParseState} (h : Recorded state reading result) :
    result.2.bare = state.bare.moveTo reading.lexer := by
  obtain ⟨growth, _, _, _, he⟩ := h
  rw [he, ParseState.bare_extend]

/-- A test looks at the tokens to come only. -/
theorem Test.holds_bare (test : Test) (state : ParseState) :
    test.holds state.bare = test.holds state := by
  induction test with
  | peek distance kinds => rfl
  | word words => rfl
  | label => rfl
  | glued => rfl
  | not test ih => simp only [holds, ih]
  | and first second ih ih' => simp only [holds, ih, ih']
  | or first second ih ih' => simp only [holds, ih, ih']

/-- A loop by its first round. -/
theorem ParseState.loopWhile_succ (test : ParseState → Bool)
    (step : ParseState → Outcome × ParseState) (state : ParseState) (limit : Nat) :
    loopWhile test step state (limit + 1) =
      if test state then
        if (step state).1 = .failed then (step state).2
        else loopWhile test step (step state).2 limit
      else state := by
  rw [loopWhile]
  split
  · rcases step state with ⟨outcome, after⟩
    cases outcome <;> simp
  · rfl

namespace Phrase

open ParseState Reading

variable {Rule : Type}

/-- A way of drawing describes a way of running. -/
def Describes (draw : ParseState → Reading) (run : ParseState → Outcome × ParseState) : Prop :=
  ∀ state : ParseState, (draw state.bare).misused = false →
    Recorded state (draw state.bare) (run state)

/-- By induction on the rounds: what each of them records is put behind what those before it have
recorded. -/
theorem Describes.loop {test : Test} {step : ParseState → Reading}
    {run : ParseState → Outcome × ParseState} (h : Describes step run) (state : ParseState)
    (limit : Nat)
    (hm : (drawLoop (fun state => test.holds state) step state.bare limit).misused = false) :
    Recorded state (drawLoop (fun state => test.holds state) step state.bare limit)
      (.done, loopWhile (fun state => test.holds state) run state limit) := by
  induction limit generalizing state with
  | zero => cases hm
  | succ limit ih =>
    rw [loopWhile_succ]
    simp only [drawLoop, Test.holds_bare] at hm ⊢
    by_cases ht : test.holds state = true
    · rw [if_pos ht] at hm ⊢
      rw [if_pos ht]
      by_cases hv : (step state.bare).verdict = .failed
      · rw [if_pos hv] at hm ⊢
        have hr := h state hm
        rw [if_pos (hr.failed_iff.mpr hv)]
        exact hr.settle fun _ => rfl
      · rw [if_neg hv] at hm ⊢
        simp only [andThen, Bool.or_eq_false_iff] at hm
        have hr := h state hm.1
        rw [if_neg (mt hr.failed_iff.mp hv)]
        rw [← hr.bare] at hm ⊢
        exact hr.andThen (ih (run state).2 hm.2)
    · rw [if_neg ht, if_neg ht]
      exact recorded_stay state rfl

theorem drawChain_moveTo (test : ParseState → Bool) (field : Kind → Field)
    (step : ParseState → Reading) (state : ParseState) (lexer : Lexer) (reading : Reading)
    (limit : Nat) :
    drawChain test field step (state.moveTo lexer) reading limit =
      drawChain test field step state reading limit := by
  cases limit <;> rfl

/-- By induction on the rounds. A round puts a start in front of the node so far, to which that
one's own start points from now on. -/
theorem Describes.chain {test : Test} {field : Kind → Field} {step : ParseState → Reading}
    {run : ParseState → Outcome × ParseState} (h : Describes step run)
    {state after : ParseState} {reading : Reading} {mark : Nat} {kind : Kind}
    (hr : Recorded state reading (.node mark kind, after)) (hv : reading.verdict = .node)
    (limit : Nat)
    (hm : (drawChain (fun state => test.holds state) field step state.bare reading limit).misused =
      false) :
    Recorded state (drawChain (fun state => test.holds state) field step state.bare reading limit)
      (growChain (fun state => test.holds state) field run mark kind after limit) := by
  induction limit generalizing after reading mark kind with
  | zero => cases hm
  | succ limit ih =>
    simp only [drawChain, growChain, ← hr.bare, Test.holds_bare] at hm ⊢
    by_cases ht : test.holds after = true
    · rw [if_pos ht] at hm ⊢
      rw [if_pos ht]
      split at hm
      · next hw => rw [hw] at hm; cases hm
      · next hw =>
        rw [if_neg hw]
        have hw' := Bool.eq_false_iff.mpr hw
        have hfill := hr.fill (field after.kind)
        have hv' : (reading.fill (field after.kind)).verdict = .node := by
          rw [fill_of_node hv, hv]
        obtain ⟨_, _, _, _, hbody⟩ := chose_of_wrap hw'
        have hb : Recorded ((after.setField (.node mark kind) (field after.kind)).precede mark)
            (step after.bare)
            (run ((after.setField (.node mark kind) (field after.kind)).precede mark)) := h _ hbody
        rcases hrun : run ((after.setField (.node mark kind) (field after.kind)).precede mark)
          with ⟨outcome, last⟩
        rw [hrun] at hb
        -- the round is recorded as a node in front of the node so far
        have hwrap := hfill.wrap hv' hb hw'
        have hnode : ((reading.fill (field after.kind)).wrap (step after.bare)).verdict =
            .node := by
          obtain ⟨kind', hc, _⟩ := chose_of_wrap hw'
          rw [wrap_of_chose hc]
        rcases hend : last.endNode (after.setField (.node mark kind) (field after.kind)).mark
          outcome with ⟨outcome', last'⟩
        rw [hend] at hwrap
        obtain ⟨mark', kind', rfl⟩ := hwrap.exists_node hnode
        -- the rounds that are left are drawn from the lexer of the reading alone
        have hlast : drawChain (fun state => test.holds state) field step after.bare
            ((reading.fill (field after.kind)).wrap (step after.bare)) limit =
            drawChain (fun state => test.holds state) field step state.bare
              ((reading.fill (field after.kind)).wrap (step after.bare)) limit := by
          rw [hr.bare, drawChain_moveTo]
        have hgoal := ih hwrap hnode (hlast ▸ hm)
        rw [← hlast] at hgoal
        exact hgoal
    · rw [if_neg ht, if_neg ht]
      exact hr

theorem run_both (runRule : Rule → ParseState → Outcome × ParseState) (first second : Phrase Rule)
    (state : ParseState) :
    (both first second).run runRule state =
      if (first.run runRule state).1 = .failed then (.failed, (first.run runRule state).2)
      else second.run runRule (first.run runRule state).2 := by
  rw [run]
  rcases first.run runRule state with ⟨outcome, after⟩
  cases outcome <;> simp

/-- A phrase after another one. -/
theorem Describes.andThen {drawn drawn' : ParseState → Reading}
    {ran ran' : ParseState → Outcome × ParseState} (h : Describes drawn ran)
    (h' : Describes drawn' ran') {state : ParseState}
    (hm : ((drawn state.bare).andThen
      (drawn' (state.bare.moveTo (drawn state.bare).lexer))).misused = false) :
    Recorded state
      ((drawn state.bare).andThen (drawn' (state.bare.moveTo (drawn state.bare).lexer)))
      (ran' (ran state).2) := by
  simp only [Reading.andThen, Bool.or_eq_false_iff] at hm
  have hr := h state hm.1
  rw [← hr.bare] at hm ⊢
  exact hr.andThen (h' _ hm.2)

theorem misused_of_close {reading : Reading} (h : reading.close.misused = false) :
    reading.misused = false := by
  unfold Reading.close at h
  split at h
  · exact (Bool.or_eq_false_iff.mp h).1
  · exact h

theorem misused_of_fill {reading : Reading} {field : Field}
    (h : (reading.fill field).misused = false) : reading.misused = false := by
  unfold Reading.fill at h
  split at h <;> exact h

/-- A chain that keeps the rules of use has kept them before its rounds. -/
theorem misused_of_drawChain {test : ParseState → Bool} {field : Kind → Field}
    {step : ParseState → Reading} {state : ParseState} {reading : Reading} {limit : Nat}
    (h : (drawChain test field step state reading limit).misused = false) :
    reading.misused = false := by
  induction limit generalizing state reading with
  | zero => cases h
  | succ limit ih =>
    simp only [drawChain] at h
    split at h
    · split at h
      · next hw => rw [hw] at h; cases h
      · obtain ⟨_, _, _, hf, _⟩ := chose_of_wrap (ih h)
        exact misused_of_fill hf
    · exact h

/-- Running a phrase records what drawing it gives. -/
theorem Describes.phrase {drawRule : Rule → ParseState → Reading}
    {runRule : Rule → ParseState → Outcome × ParseState}
    (hrules : ∀ rule, Describes (drawRule rule) (runRule rule)) (phrase : Phrase Rule) :
    Describes (phrase.draw drawRule) (phrase.run runRule) := by
  induction phrase with
  | done => exact fun state _ => recorded_stay state rfl
  | reject => exact fun state _ => recorded_stay state rfl
  | take field => exact fun state _ => recorded_taken state field
  | expect kind field =>
    intro state _
    simp only [draw, run, show state.bare.kind = state.kind from rfl]
    split
    · exact recorded_taken state field
    · rw [fail_eq]
      exact recorded_failing state _
  | close kind =>
    intro state _
    simp only [draw, run, show state.bare.kind = state.kind from rfl]
    split
    · exact recorded_taken state none
    · exact recorded_report state _
  | missing what =>
    intro state _
    simp only [draw, run, fail_eq]
    exact recorded_failing state _
  | refuse message =>
    intro state _
    simp only [draw, run, fail_eq]
    exact recorded_failing state _
  | demand kind =>
    intro state hm
    -- a demand that is not met is a misuse, and then there is nothing to show
    have hk : (state.kind == kind) = true := by
      simp only [draw, bne_eq_false_iff_eq] at hm
      exact beq_iff_eq.mpr hm
    simp only [draw, run, ParseState.demand, hk, require_true]
    exact recorded_stay state rfl
  | relex mode =>
    intro state _
    refine ⟨.nil, trivial, rfl, rfl, ?_⟩
    simp [run, draw, extend, stay, bare, Growth.events]
  | seq first second ih ih' => exact fun state hm => ih.andThen ih' hm
  | both first second ih ih' =>
    intro state hm
    rw [run_both]
    simp only [draw] at hm ⊢
    split at hm
    · next hv =>
      have hr := ih state hm
      rw [if_pos hv, if_pos (hr.failed_iff.mpr hv)]
      have he : first.run runRule state = (.failed, (first.run runRule state).2) :=
        Prod.ext (hr.failed_iff.mpr hv) rfl
      rw [← he]
      exact hr
    · next hv =>
      have hr := ih state (by simpa using (Bool.or_eq_false_iff.mp hm).1)
      rw [if_neg hv, if_neg (mt hr.failed_iff.mp hv)]
      exact ih.andThen ih' hm
  | branch test yes no ih ih' =>
    intro state hm
    simp only [draw, run, Test.holds_bare] at hm ⊢
    split at hm
    · next ht =>
      rw [if_pos ht, if_pos ht]
      exact ih state hm
    · next ht =>
      rw [if_neg ht, if_neg ht]
      exact ih' state hm
  | loop test body ih => exact fun state hm => ih.loop state _ hm
  | choose kind => exact fun state _ => recorded_stay state rfl
  | node body ih =>
    intro state hm
    -- the blank start is part of what the body is run behind
    have hr := ih state.openNode (misused_of_close hm)
    exact hr.close hm
  | slot field body ih =>
    intro state hm
    have hr := ih state (misused_of_fill hm)
    simp only [draw, run]
    rw [← hr.bare]
    exact hr.fill _
  | chain head test field body ih ih' =>
    intro state hm
    simp only [draw, run] at hm ⊢
    split at hm
    · next hv =>
      rw [if_pos hv]
      have hr := ih state (misused_of_drawChain hm)
      -- the mark of the node so far is that of the head; the rounds go on from there
      rcases hrun : head.run runRule state with ⟨outcome, after⟩
      rw [hrun] at hr
      obtain ⟨mark, kind, rfl⟩ := hr.exists_node hv
      rw [← hr.bare] at hm ⊢
      exact ih'.chain hr hv _ hm
    · next hv =>
      rw [if_neg hv]
      have hr := ih state hm
      rcases hrun : head.run runRule state with ⟨outcome, after⟩
      rw [hrun] at hr
      have hfail : Recorded state { head.draw drawRule state.bare with verdict := .failed }
          (.failed, after) := hr.settle fun _ => rfl
      cases outcome with
      | node mark kind => exact absurd (hr.verdict_of_node) hv
      | _ => exact hfail
  | look probe yes no ih ih' ih'' =>
    intro state hm
    simp only [draw, run] at hm ⊢
    simp only [instead, Bool.or_eq_false_iff] at hm
    obtain ⟨growth, _, _, hmarks, hprobe⟩ := ih state hm.1
    -- going back drops what the probe has recorded, whether it was clean or not
    rw [hprobe, isClean_extend state hmarks, rewind_extend]
    split at hm
    · next hc =>
      rw [if_pos hc, if_pos hc]
      exact ih' state hm.2
    · next hc =>
      rw [if_neg hc, if_neg hc]
      exact ih'' state hm.2
  | attempt body yes no ih ih' ih'' =>
    intro state hm
    simp only [draw, run] at hm ⊢
    split at hm
    · next hc =>
      have hr := ih state (Bool.or_eq_false_iff.mp hm).1
      obtain ⟨growth, _, _, hmarks, htried⟩ := id hr
      rw [if_pos hc, htried, isClean_extend state hmarks, if_pos hc, ← htried]
      exact ih.andThen ih' hm
    · next hc =>
      simp only [instead, Bool.or_eq_false_iff] at hm
      obtain ⟨growth, _, _, hmarks, htried⟩ := ih state hm.1
      rw [if_neg hc, htried, isClean_extend state hmarks, if_neg hc, rewind_extend]
      exact ih'' state hm.2
  | blame shape reading ih ih' =>
    intro state hm
    simp only [draw, Bool.or_eq_false_iff] at hm
    obtain ⟨growth, _, _, _, hshape⟩ := ih state hm.1
    obtain ⟨growth', _, _, _, hread⟩ := ih' state hm.2
    simp only [draw, run, hshape, rewind_extend, hread, firstReportSince_extend]
    exact recorded_report state _
  | recover element ih =>
    intro state hm
    have hm' : (element.draw drawRule state.bare).misused = false := by
      simp only [draw] at hm
      split at hm <;> exact hm
    have hr := ih state hm'
    obtain ⟨growth, _, _, _, hresult⟩ := id hr
    -- failures are counted on in the state and from zero in the reading
    have hfailures : ((element.run runRule state).2.failures = state.checkpoint.failures) ↔
        (element.draw drawRule state.bare).failures = 0 := by
      rw [hresult]
      simp [extend, checkpoint]
    simp only [draw, run, hfailures]
    split
    · exact hr.settle fun _ => rfl
    · rw [hresult]
      exact recorded_skipFailed state _ growth
  | absorb body ih =>
    intro state hm
    obtain ⟨growth, hsound, hshapes, hmarks, hresult⟩ := ih state hm
    refine ⟨growth, hsound, hshapes, hmarks, ?_⟩
    simp [run, draw, hresult, extend]
  | nested body ih =>
    intro state hm
    simp only [draw, run] at hm ⊢
    split at hm
    · next hl =>
      rw [if_pos hl, if_pos (show state.limit ≤ state.depth from hl)]
      exact recorded_failing state _
    · next hl =>
      rw [if_neg hl, if_neg (show ¬ state.limit ≤ state.depth from hl)]
      obtain ⟨growth, hsound, hshapes, hmarks, hresult⟩ :=
        ih { state with depth := state.depth + 1 } hm
      refine ⟨growth, hsound, hshapes, hmarks, ?_⟩
      rw [hresult]
      rfl
  | call rule => exact hrules rule

/-- Running a rule records what drawing it gives. -/
theorem describes_runRule (grammar : Rule → Phrase Rule) (budget : Nat) (rule : Rule) :
    Describes (drawRule grammar budget rule) (runRule grammar budget rule) := by
  induction budget generalizing rule with
  | zero => exact fun state hm => nomatch hm
  | succ budget ih => exact Describes.phrase ih (grammar rule)

end Phrase

end ScriptTree

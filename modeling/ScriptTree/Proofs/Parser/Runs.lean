import ScriptTree.Proofs.Parser.Recording

/-!
Runs without bounds: the meaning of phrases as a relation, in which loops go on as long as they like
and rules call each other as deep as they like. A phrase terminates from a state if it has a run
from there, and then it has only one. Running a phrase within bounds gives this run, unless a bound
is reached.
-/

namespace ScriptTree

inductive Job (Rule : Type) where
  | read (phrase : Phrase Rule)
  | grow (test : Test) (field : Kind → Field) (body : Phrase Rule) (mark : Nat) (kind : Kind)

def Phrase.isAtom {Rule : Type} : Phrase Rule → Bool
  | .done | .reject | .take _ | .expect _ _ | .close _ | .missing _ | .refuse _ | .demand _
  | .relex _ | .choose _ => true
  | _ => false

/-- A run of a job over the rules of a grammar, from a state to an outcome and a state. -/
inductive Runs {Rule : Type} (grammar : Rule → Phrase Rule) :
    Job Rule → ParseState → Outcome × ParseState → Prop where
  | atom {phrase : Phrase Rule} {state : ParseState}
      (runRule : Rule → ParseState → Outcome × ParseState) (isAtom : phrase.isAtom = true) :
      Runs grammar (.read phrase) state (phrase.run runRule state)
  | seq {first second : Phrase Rule} {state : ParseState} {result result' : Outcome × ParseState}
      (run : Runs grammar (.read first) state result)
      (rest : Runs grammar (.read second) result.2 result') :
      Runs grammar (.read (.seq first second)) state result'
  | both_failed {first second : Phrase Rule} {state : ParseState} {result : Outcome × ParseState}
      (run : Runs grammar (.read first) state result) (failed : result.1 = .failed) :
      Runs grammar (.read (.both first second)) state (.failed, result.2)
  | both {first second : Phrase Rule} {state : ParseState} {result result' : Outcome × ParseState}
      (run : Runs grammar (.read first) state result) (fits : result.1 ≠ .failed)
      (rest : Runs grammar (.read second) result.2 result') :
      Runs grammar (.read (.both first second)) state result'
  | branch {test : Test} {yes no : Phrase Rule} {state : ParseState}
      {result : Outcome × ParseState}
      (run : Runs grammar (.read (if test.holds state then yes else no)) state result) :
      Runs grammar (.read (.branch test yes no)) state result
  | loop_stop {test : Test} {body : Phrase Rule} {state : ParseState}
      (stops : test.holds state = false) :
      Runs grammar (.read (.loop test body)) state (.done, state)
  | loop_failed {test : Test} {body : Phrase Rule} {state : ParseState}
      {result : Outcome × ParseState} (goesOn : test.holds state = true)
      (run : Runs grammar (.read body) state result) (failed : result.1 = .failed) :
      Runs grammar (.read (.loop test body)) state (.done, result.2)
  | loop_again {test : Test} {body : Phrase Rule} {state : ParseState}
      {result result' : Outcome × ParseState} (goesOn : test.holds state = true)
      (run : Runs grammar (.read body) state result) (fits : result.1 ≠ .failed)
      (rest : Runs grammar (.read (.loop test body)) result.2 result') :
      Runs grammar (.read (.loop test body)) state result'
  | node {body : Phrase Rule} {state : ParseState} {result : Outcome × ParseState}
      (run : Runs grammar (.read body) state.openNode result) :
      Runs grammar (.read (.node body)) state (result.2.endNode state.mark result.1)
  | slot {field : Kind → Field} {body : Phrase Rule} {state : ParseState}
      {result : Outcome × ParseState} (run : Runs grammar (.read body) state result) :
      Runs grammar (.read (.slot field body)) state
        (result.1, result.2.setField result.1 (field result.2.kind))
  | chain_failed {head body : Phrase Rule} {test : Test} {field : Kind → Field}
      {state : ParseState} {result : Outcome × ParseState}
      (run : Runs grammar (.read head) state result)
      (failed : ∀ mark kind, result.1 ≠ .node mark kind) :
      Runs grammar (.read (.chain head test field body)) state (.failed, result.2)
  | chain {head body : Phrase Rule} {test : Test} {field : Kind → Field} {state after : ParseState}
      {mark : Nat} {kind : Kind} {result : Outcome × ParseState}
      (run : Runs grammar (.read head) state (.node mark kind, after))
      (rest : Runs grammar (.grow test field body mark kind) after result) :
      Runs grammar (.read (.chain head test field body)) state result
  | grow_stop {test : Test} {field : Kind → Field} {body : Phrase Rule} {mark : Nat} {kind : Kind}
      {state : ParseState} (stops : test.holds state = false) :
      Runs grammar (.grow test field body mark kind) state (.node mark kind, state)
  | grow_again {test : Test} {field : Kind → Field} {body : Phrase Rule} {mark outer : Nat}
      {kind kind' : Kind} {state filled after : ParseState} {result result' : Outcome × ParseState}
      (goesOn : test.holds state = true)
      (fills : filled = state.setField (.node mark kind) (field state.kind))
      (run : Runs grammar (.read body) (filled.precede mark) result)
      (ends : result.2.endNode filled.mark result.1 = (.node outer kind', after))
      (rest : Runs grammar (.grow test field body outer kind') after result') :
      Runs grammar (.grow test field body mark kind) state result'
  | look {probe yes no : Phrase Rule} {state : ParseState} {result result' : Outcome × ParseState}
      (run : Runs grammar (.read probe) state result)
      (rest : Runs grammar
        (.read (if result.2.isClean state.checkpoint result.1 then yes else no))
        (result.2.rewind state.checkpoint) result') :
      Runs grammar (.read (.look probe yes no)) state result'
  | attempt {body yes no : Phrase Rule} {state : ParseState}
      {result result' : Outcome × ParseState} (run : Runs grammar (.read body) state result)
      (clean : result.2.isClean state.checkpoint result.1 = true)
      (rest : Runs grammar (.read yes) result.2 result') :
      Runs grammar (.read (.attempt body yes no)) state result'
  | attempt_undone {body yes no : Phrase Rule} {state : ParseState}
      {result result' : Outcome × ParseState} (run : Runs grammar (.read body) state result)
      (unclean : result.2.isClean state.checkpoint result.1 = false)
      (rest : Runs grammar (.read no) (result.2.rewind state.checkpoint) result') :
      Runs grammar (.read (.attempt body yes no)) state result'
  | blame {shape reading : Phrase Rule} {state : ParseState}
      {result result' : Outcome × ParseState} (run : Runs grammar (.read shape) state result)
      (rest : Runs grammar (.read reading) (result.2.rewind state.checkpoint) result') :
      Runs grammar (.read (.blame shape reading)) state
        (.done, (result'.2.rewind state.checkpoint).report
          (ParseState.ambiguity result.2.current.span
            (result'.2.firstReportSince state.checkpoint)))
  | recover {element : Phrase Rule} {state : ParseState} {result : Outcome × ParseState}
      (run : Runs grammar (.read element) state result)
      (clean : result.2.failures = state.failures) :
      Runs grammar (.read (.recover element)) state (.done, result.2)
  | recover_skipped {element : Phrase Rule} {state : ParseState} {result : Outcome × ParseState}
      (run : Runs grammar (.read element) state result)
      (unclean : result.2.failures ≠ state.failures) :
      Runs grammar (.read (.recover element)) state (.done, result.2.skipFailed state.checkpoint)
  | absorb {body : Phrase Rule} {state : ParseState} {result : Outcome × ParseState}
      (run : Runs grammar (.read body) state result) :
      Runs grammar (.read (.absorb body)) state
        (result.1, { result.2 with failures := state.failures })
  | nested_full {body : Phrase Rule} {state : ParseState} (full : state.limit ≤ state.depth) :
      Runs grammar (.read (.nested body)) state
        (.failed, state.failWith .tooDeep
          ("nesting exceeds the limit of " ++ toString state.limit ++ " levels"))
  | nested {body : Phrase Rule} {state : ParseState} {result : Outcome × ParseState}
      (room : ¬ state.limit ≤ state.depth)
      (run : Runs grammar (.read body) { state with depth := state.depth + 1 } result) :
      Runs grammar (.read (.nested body)) state
        (result.1, { result.2 with depth := result.2.depth - 1 })
  | call {rule : Rule} {state : ParseState} {result : Outcome × ParseState}
      (run : Runs grammar (.read (grammar rule)) state result) :
      Runs grammar (.read (.call rule)) state result

namespace Runs

open Phrase

variable {Rule : Type} {grammar : Rule → Phrase Rule}

theorem run_atom {phrase : Phrase Rule} (h : phrase.isAtom = true)
    (runRule runRule' : Rule → ParseState → Outcome × ParseState) (state : ParseState) :
    phrase.run runRule state = phrase.run runRule' state := by
  cases phrase <;> first | rfl | cases h

/-- A job has at most one run from a state. -/
theorem unique {job : Job Rule} {state : ParseState} {result result' : Outcome × ParseState}
    (h : Runs grammar job state result) (h' : Runs grammar job state result') :
    result = result' := by
  -- the other run ends in the same rule: the rules of a phrase differ in what a part of it has come
  -- to, which is the same in both runs by induction
  induction h generalizing result' with
  | atom runRule isAtom =>
    cases h' with
    | atom runRule' isAtom' => exact run_atom isAtom _ _ _
    | _ => cases isAtom
  | seq run rest ih ih' =>
    cases h' with
    | atom _ isAtom => cases isAtom
    | seq run' rest' =>
      obtain rfl := ih run'
      exact ih' rest'
  | both_failed run failed ih =>
    cases h' with
    | atom _ isAtom => cases isAtom
    | both_failed run' failed' => rw [ih run']
    | both run' fits rest => exact absurd (ih run' ▸ failed) fits
  | both run fits rest ih ih' =>
    cases h' with
    | atom _ isAtom => cases isAtom
    | both_failed run' failed => exact absurd failed (ih run' ▸ fits)
    | both run' fits' rest' =>
      obtain rfl := ih run'
      exact ih' rest'
  | branch run ih =>
    cases h' with
    | atom _ isAtom => cases isAtom
    | branch run' => exact ih run'
  | loop_stop stops =>
    cases h' with
    | atom _ isAtom => cases isAtom
    | loop_stop => rfl
    | loop_failed goesOn => simp [stops] at goesOn
    | loop_again goesOn => simp [stops] at goesOn
  | loop_failed goesOn run failed ih =>
    cases h' with
    | atom _ isAtom => cases isAtom
    | loop_stop stops => simp [stops] at goesOn
    | loop_failed _ run' _ => rw [ih run']
    | loop_again _ run' fits => exact absurd (ih run' ▸ failed) fits
  | loop_again goesOn run fits rest ih ih' =>
    cases h' with
    | atom _ isAtom => cases isAtom
    | loop_stop stops => simp [stops] at goesOn
    | loop_failed _ run' failed => exact absurd failed (ih run' ▸ fits)
    | loop_again _ run' _ rest' =>
      obtain rfl := ih run'
      exact ih' rest'
  | node run ih =>
    cases h' with
    | atom _ isAtom => cases isAtom
    | node run' => rw [ih run']
  | slot run ih =>
    cases h' with
    | atom _ isAtom => cases isAtom
    | slot run' => rw [ih run']
  | chain_failed run failed ih =>
    cases h' with
    | atom _ isAtom => cases isAtom
    | chain_failed run' _ => rw [ih run']
    | chain run' _ => exact absurd (congrArg Prod.fst (ih run')) (failed _ _)
  | chain run rest ih ih' =>
    cases h' with
    | atom _ isAtom => cases isAtom
    | chain_failed run' failed => exact absurd (congrArg Prod.fst (ih run')).symm (failed _ _)
    | chain run' rest' =>
      obtain ⟨he, rfl⟩ := Prod.mk.inj (ih run')
      obtain ⟨rfl, rfl⟩ := Outcome.node.inj he
      exact ih' rest'
  | grow_stop stops =>
    cases h' with
    | grow_stop => rfl
    | grow_again goesOn => simp [stops] at goesOn
  | grow_again goesOn fills run ends rest ih ih' =>
    cases h' with
    | grow_stop stops => simp [stops] at goesOn
    | grow_again _ fills' run' ends' rest' =>
      subst fills fills'
      obtain rfl := ih run'
      obtain ⟨he, rfl⟩ := Prod.mk.inj (ends.symm.trans ends')
      obtain ⟨rfl, rfl⟩ := Outcome.node.inj he
      exact ih' rest'
  | look run rest ih ih' =>
    cases h' with
    | atom _ isAtom => cases isAtom
    | look run' rest' =>
      obtain rfl := ih run'
      exact ih' rest'
  | attempt run clean rest ih ih' =>
    cases h' with
    | atom _ isAtom => cases isAtom
    | attempt run' _ rest' =>
      obtain rfl := ih run'
      exact ih' rest'
    | attempt_undone run' unclean _ =>
      obtain rfl := ih run'
      simp [clean] at unclean
  | attempt_undone run unclean rest ih ih' =>
    cases h' with
    | atom _ isAtom => cases isAtom
    | attempt run' clean _ =>
      obtain rfl := ih run'
      simp [unclean] at clean
    | attempt_undone run' _ rest' =>
      obtain rfl := ih run'
      exact ih' rest'
  | blame run rest ih ih' =>
    cases h' with
    | atom _ isAtom => cases isAtom
    | blame run' rest' =>
      obtain rfl := ih run'
      rw [ih' rest']
  | recover run clean ih =>
    cases h' with
    | atom _ isAtom => cases isAtom
    | recover run' _ => rw [ih run']
    | recover_skipped run' unclean => exact absurd (ih run' ▸ clean) unclean
  | recover_skipped run unclean ih =>
    cases h' with
    | atom _ isAtom => cases isAtom
    | recover run' clean => exact absurd clean (ih run' ▸ unclean)
    | recover_skipped run' _ => rw [ih run']
  | absorb run ih =>
    cases h' with
    | atom _ isAtom => cases isAtom
    | absorb run' => rw [ih run']
  | nested_full full =>
    cases h' with
    | atom _ isAtom => cases isAtom
    | nested_full => rfl
    | nested room => exact absurd full room
  | nested room run ih =>
    cases h' with
    | atom _ isAtom => cases isAtom
    | nested_full full => exact absurd full room
    | nested _ run' => rw [ih run']
  | call run ih =>
    cases h' with
    | atom _ isAtom => cases isAtom
    | call run' => exact ih run'

end Runs

namespace Phrase

open ParseState Reading

variable {Rule : Type} {grammar : Rule → Phrase Rule}

/-- Running a job within bounds gives its run without bounds, unless a reading of it is misused. -/
def Adequate (grammar : Rule → Phrase Rule) (phrase : Phrase Rule) (draw : ParseState → Reading)
    (run : ParseState → Outcome × ParseState) : Prop :=
  ∀ state : ParseState, (draw state.bare).misused = false →
    Runs grammar (.read phrase) state (run state)

/-- By induction on the rounds: as long as the bound is not reached, each round is one of the run
without bounds. -/
theorem Adequate.loop {test : Test} {body : Phrase Rule} {step : ParseState → Reading}
    {run : ParseState → Outcome × ParseState} (hd : Describes step run)
    (h : Adequate grammar body step run) (state : ParseState) (limit : Nat)
    (hm : (drawLoop (fun state => test.holds state) step state.bare limit).misused = false) :
    Runs grammar (.read (.loop test body)) state
      (.done, loopWhile (fun state => test.holds state) run state limit) := by
  induction limit generalizing state with
  | zero => cases hm
  | succ limit ih =>
    rw [loopWhile_succ]
    simp only [drawLoop, Test.holds_bare] at hm
    by_cases ht : test.holds state = true
    · rw [if_pos ht] at hm ⊢
      by_cases hv : (step state.bare).verdict = .failed
      · rw [if_pos hv] at hm
        have hfailed := (hd state hm).failed_iff.mpr hv
        rw [if_pos hfailed]
        exact .loop_failed ht (h state hm) hfailed
      · rw [if_neg hv] at hm
        simp only [Reading.andThen, Bool.or_eq_false_iff] at hm
        have hr := hd state hm.1
        have hfits := mt hr.failed_iff.mp hv
        rw [if_neg hfits]
        rw [← hr.bare] at hm
        exact .loop_again ht (h state hm.1) hfits (ih _ hm.2)
    · rw [if_neg ht]
      exact .loop_stop (Bool.eq_false_iff.mpr ht)

/-- By induction on the rounds of the chain, as for loops. -/
theorem Adequate.grow {test : Test} {field : Kind → Field} {body : Phrase Rule}
    {step : ParseState → Reading} {run : ParseState → Outcome × ParseState}
    (hd : Describes step run) (h : Adequate grammar body step run) {state after : ParseState}
    {reading : Reading} {mark : Nat} {kind : Kind}
    (hr : Recorded state reading (.node mark kind, after)) (hv : reading.verdict = .node)
    (limit : Nat)
    (hm : (drawChain (fun state => test.holds state) field step state.bare reading limit).misused =
      false) :
    Runs grammar (.grow test field body mark kind) after
      (growChain (fun state => test.holds state) field run mark kind after limit) := by
  induction limit generalizing after reading mark kind with
  | zero => cases hm
  | succ limit ih =>
    simp only [drawChain, growChain, ← hr.bare, Test.holds_bare] at hm ⊢
    by_cases ht : test.holds after = true
    · rw [if_pos ht] at hm ⊢
      split at hm
      · next hw => rw [hw] at hm; cases hm
      · next hw =>
        have hw' := Bool.eq_false_iff.mpr hw
        have hfill := hr.fill (field after.kind)
        have hv' : (reading.fill (field after.kind)).verdict = .node := by
          rw [fill_verdict, hv]
        obtain ⟨chosen, hchosen, _, _, hbody⟩ := chose_of_wrap hw'
        have hrun := h ((after.setField (.node mark kind) (field after.kind)).precede mark) hbody
        have hb : Recorded ((after.setField (.node mark kind) (field after.kind)).precede mark)
            (step after.bare)
            (run ((after.setField (.node mark kind) (field after.kind)).precede mark)) := hd _ hbody
        have hwrap := hfill.wrap hv' hb hw'
        have hnode : ((reading.fill (field after.kind)).wrap (step after.bare)).verdict =
            .node := by
          rw [wrap_of_chose hchosen]
        generalize hresult :
          run ((after.setField (.node mark kind) (field after.kind)).precede mark) = result
          at hrun hwrap ⊢
        rcases hend : result.2.endNode (after.setField (.node mark kind) (field after.kind)).mark
          result.1 with ⟨outcome, last⟩
        rw [hend] at hwrap
        obtain ⟨mark', kind', rfl⟩ := hwrap.exists_node hnode
        rw [hr.bare, drawChain_moveTo, ← hr.bare] at hm
        exact .grow_again ht rfl hrun hend (ih hwrap hnode hm)
    · rw [if_neg ht]
      exact .grow_stop (Bool.eq_false_iff.mpr ht)

/-- A run of a phrase within bounds is its run without bounds. -/
theorem Adequate.phrase {drawRule : Rule → ParseState → Reading}
    {runRule : Rule → ParseState → Outcome × ParseState}
    (hd : ∀ rule, Describes (drawRule rule) (runRule rule))
    (hrules : ∀ rule, Adequate grammar (grammar rule) (drawRule rule) (runRule rule))
    (phrase : Phrase Rule) :
    Adequate grammar phrase (phrase.draw drawRule) (phrase.run runRule) := by
  have hdescribes := Describes.phrase hd
  induction phrase with
  | seq first second ih ih' =>
    intro state hm
    simp only [draw, Reading.andThen, Bool.or_eq_false_iff] at hm
    -- the second phrase is drawn from the lexer behind the first, and run from the state behind it
    rw [← (hdescribes first state hm.1).bare] at hm
    exact .seq (ih state hm.1) (ih' _ hm.2)
  | both first second ih ih' =>
    intro state hm
    rw [run_both]
    simp only [draw] at hm
    split at hm
    · next hv =>
      have hfailed := (hdescribes first state hm).failed_iff.mpr hv
      rw [if_pos hfailed]
      exact .both_failed (ih state hm) hfailed
    · next hv =>
      simp only [Reading.andThen, Bool.or_eq_false_iff] at hm
      have hr := hdescribes first state hm.1
      have hfits := mt hr.failed_iff.mp hv
      rw [if_neg hfits]
      rw [← hr.bare] at hm
      exact .both (ih state hm.1) hfits (ih' _ hm.2)
  | branch test yes no ih ih' =>
    intro state hm
    simp only [draw, run, Test.holds_bare] at hm ⊢
    refine .branch ?_
    split at hm
    · next ht =>
      rw [if_pos ht, if_pos ht]
      exact ih state hm
    · next ht =>
      rw [if_neg ht, if_neg ht]
      exact ih' state hm
  | loop test body ih => exact fun state hm => ih.loop (hdescribes body) state _ hm
  | node body ih => exact fun state hm => .node (ih state.openNode (misused_of_close hm))
  | slot field body ih => exact fun state hm => .slot (ih state (misused_of_fill hm))
  | chain head test field body ih ih' =>
    intro state hm
    simp only [draw, run] at hm ⊢
    split at hm
    · next hv =>
      have hr := hdescribes head state (misused_of_drawChain hm)
      have hrun := ih state (misused_of_drawChain hm)
      generalize head.run runRule state = result at hr hrun
      obtain ⟨outcome, after⟩ := result
      obtain ⟨mark, kind, rfl⟩ := hr.exists_node hv
      rw [← hr.bare] at hm
      exact .chain hrun (ih'.grow (hdescribes body) hr hv _ hm)
    · next hv =>
      have hr := hdescribes head state hm
      have hrun := ih state hm
      generalize head.run runRule state = result at hr hrun
      obtain ⟨outcome, after⟩ := result
      cases outcome with
      | node mark kind => exact absurd hr.verdict_of_node hv
      | _ => exact .chain_failed hrun fun _ _ => Outcome.noConfusion
  | look probe yes no ih ih' ih'' =>
    intro state hm
    simp only [draw, Reading.instead, Bool.or_eq_false_iff] at hm
    obtain ⟨growth, _, _, hmarks, hprobe⟩ := hdescribes probe state hm.1
    have hclean := isClean_extend state hmarks
    rw [← hprobe] at hclean
    simp only [run]
    refine .look (ih state hm.1) ?_
    -- the state behind the probe is the one in front of it with its events, which going back drops
    rw [hclean, hprobe, rewind_extend]
    split at hm
    · next hc =>
      rw [if_pos hc, if_pos hc]
      exact ih' state hm.2
    · next hc =>
      rw [if_neg hc, if_neg hc]
      exact ih'' state hm.2
  | attempt body yes no ih ih' ih'' =>
    intro state hm
    simp only [draw, run] at hm ⊢
    split at hm
    · next hc =>
      simp only [Reading.andThen, Bool.or_eq_false_iff] at hm
      have hr := hdescribes body state hm.1
      rw [← hr.bare] at hm
      obtain ⟨growth, _, _, hmarks, htried⟩ := id hr
      have hclean := isClean_extend state hmarks
      rw [← htried, hc] at hclean
      rw [if_pos hclean]
      exact .attempt (ih state hm.1) hclean (ih' _ hm.2)
    · next hc =>
      simp only [Reading.instead, Bool.or_eq_false_iff] at hm
      obtain ⟨growth, _, _, hmarks, htried⟩ := hdescribes body state hm.1
      have hclean := isClean_extend state hmarks
      rw [← htried, Bool.eq_false_iff.mpr hc] at hclean
      rw [if_neg (by rw [hclean]; exact Bool.false_ne_true)]
      refine .attempt_undone (ih state hm.1) hclean ?_
      rw [htried, rewind_extend]
      exact ih'' state hm.2
  | blame shape reading ih ih' =>
    intro state hm
    simp only [draw, Bool.or_eq_false_iff] at hm
    obtain ⟨growth, _, _, _, hshape⟩ := hdescribes shape state hm.1
    refine .blame (ih state hm.1) ?_
    rw [hshape, rewind_extend]
    exact ih' state hm.2
  | recover element ih =>
    intro state hm
    have hm' : (element.draw drawRule state.bare).misused = false := by
      simp only [draw] at hm
      split at hm <;> exact hm
    simp only [run]
    split
    · next hf => exact .recover (ih state hm') hf
    · next hf => exact .recover_skipped (ih state hm') hf
  | absorb body ih => exact fun state hm => .absorb (ih state hm)
  | nested body ih =>
    intro state hm
    simp only [draw, run] at hm ⊢
    split at hm
    · next hl =>
      rw [if_pos (show state.limit ≤ state.depth from hl)]
      exact .nested_full hl
    · next hl =>
      rw [if_neg (show ¬ state.limit ≤ state.depth from hl)]
      exact .nested hl (ih { state with depth := state.depth + 1 } hm)
  | call rule => exact fun state hm => .call (hrules rule state hm)
  | _ => exact fun state _ => .atom runRule rfl

/-- A run of a rule within bounds is its run without bounds. -/
theorem adequate_runRule (grammar : Rule → Phrase Rule) (budget : Nat) (rule : Rule) :
    Adequate grammar (grammar rule) (drawRule grammar budget rule)
      (runRule grammar budget rule) := by
  induction budget generalizing rule with
  | zero => exact fun state hm => Bool.noConfusion hm
  | succ budget ih => exact Adequate.phrase (describes_runRule grammar budget) ih (grammar rule)

end Phrase

end ScriptTree

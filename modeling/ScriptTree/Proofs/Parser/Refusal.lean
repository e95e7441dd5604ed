import ScriptTree.Proofs.Parser.Quiet

/-!
Refusals: where a phrase would go deeper than the limit of nesting, it is refused, and that is
reported. But reports are dropped with a reading that is taken back: with a probe, with an attempt
that fails, and with an element that is skipped, of whose reports only the first is kept. A phrase
conceals a refusal if it drops the report of one.

A reading that neither reports nor conceals a refusal is the same at every greater limit.
-/

namespace ScriptTree

def tellsRefusal (reports : List Diagnostic) : Bool :=
  reports.any (·.kind == .tooDeep)

@[simp] theorem tellsRefusal_append (first second : List Diagnostic) :
    tellsRefusal (first ++ second) = (tellsRefusal first || tellsRefusal second) :=
  List.any_append

def ParseState.withLimit (state : ParseState) (limit : Nat) : ParseState :=
  { state with limit }

/-- A test does not look at the limit. -/
theorem Test.holds_withLimit (test : Test) (state : ParseState) (limit : Nat) :
    test.holds (state.withLimit limit) = test.holds state := by
  induction test with
  | peek distance kinds => rfl
  | word words => rfl
  | label => rfl
  | glued => rfl
  | not test ih => simp only [holds, ih]
  | and first second ih ih' => simp only [holds, ih, ih']
  | or first second ih ih' => simp only [holds, ih, ih']

/-- Skipping an element does not look at the limit. -/
theorem ParseState.skipElement_withLimit (state : ParseState) (limit braces : Nat) (isFirst : Bool)
    (rounds : Nat) : (state.withLimit limit).skipElement braces isFirst rounds =
      (state.skipElement braces isFirst rounds).withLimit limit := by
  have hkind (state : ParseState) : (state.withLimit limit).kind = state.kind := rfl
  have hdiscard (state : ParseState) :
      (state.withLimit limit).discard = state.discard.withLimit limit := by
    unfold discard
    rw [hkind]
    split <;> rfl
  induction rounds generalizing state braces isFirst with
  | zero => rfl
  | succ rounds ih =>
    simp only [skipElement, hkind, hdiscard, ih]
    split
    · rfl
    · split
      · split <;> rfl
      · rfl
      · rfl
    · split <;> rfl
    · rfl
    · rfl

namespace Reading

open ParseState

theorem skipped_withLimit (state : ParseState) (limit : Nat) (dropped : Reading) :
    skipped (state.withLimit limit) dropped = skipped state dropped := by
  have hrest : (state.withLimit limit).bare.skipElement 0 true (state.withLimit limit).rounds =
      (state.bare.skipElement 0 true state.rounds).withLimit limit :=
    skipElement_withLimit state.bare limit 0 true state.rounds
  simp only [skipped, hrest]
  rfl

structure Unrefused (reading : Reading) (concealed : Bool) : Prop where
  kept : reading.misused = false
  untold : tellsRefusal reading.reports = false
  shown : concealed = false

theorem Unrefused.of_andThen {first second : Reading} {concealed concealed' : Bool}
    (h : Unrefused (first.andThen second) (concealed || concealed')) :
    Unrefused first concealed ∧ Unrefused second concealed' := by
  obtain ⟨hkept, huntold, hshown⟩ := h
  simp only [andThen, tellsRefusal_append, Bool.or_eq_false_iff] at hkept huntold hshown
  exact ⟨⟨hkept.1, huntold.1, hshown.1⟩, ⟨hkept.2, huntold.2, hshown.2⟩⟩

theorem Unrefused.of_instead {reading dropped : Reading} {concealed concealed' : Bool}
    (h : Unrefused (reading.instead dropped)
      (concealed || (tellsRefusal dropped.reports || concealed'))) :
    Unrefused dropped concealed ∧ Unrefused reading concealed' := by
  obtain ⟨hkept, huntold, hshown⟩ := h
  simp only [instead, Bool.or_eq_false_iff] at hkept hshown
  exact ⟨⟨hkept.1, hshown.2.1, hshown.1⟩, ⟨hkept.2, huntold, hshown.2.2⟩⟩

/-- Where nothing is reported of a node around a reading and a body, nothing is reported of the two
of them. -/
theorem untold_of_wrap {reading body : Reading} (hkept : (reading.wrap body).misused = false)
    (huntold : tellsRefusal (reading.wrap body).reports = false) {concealed : Bool}
    (hshown : concealed = false) :
    tellsRefusal reading.reports = false ∧ body.Unrefused concealed := by
  obtain ⟨kind, hchose, -, -, hbody⟩ := chose_of_wrap hkept
  rw [wrap_of_chose hchose] at huntold
  simp only [andThen, tellsRefusal_append, Bool.or_eq_false_iff] at huntold
  exact ⟨huntold.1, hbody, huntold.2, hshown⟩

end Reading

namespace Phrase

open ParseState Reading

variable {Rule : Type}

def concealsLoop (test : ParseState → Bool) (step : ParseState → Reading)
    (conceals : ParseState → Bool) (state : ParseState) : Nat → Bool
  | 0 => false
  | limit + 1 =>
    test state && (conceals state ||
      ((step state).verdict != .failed &&
        concealsLoop test step conceals (state.moveTo (step state).lexer) limit))

def concealsChain (test : ParseState → Bool) (field : Kind → Field) (step : ParseState → Reading)
    (conceals : ParseState → Bool) (state : ParseState) (reading : Reading) : Nat → Bool
  | 0 => false
  | limit + 1 =>
    let state := state.moveTo reading.lexer
    test state && (conceals state ||
      concealsChain test field step conceals state
        ((reading.fill (field state.kind)).wrap (step state)) limit)

def conceals (drawRule : Rule → ParseState → Reading) (concealsRule : Rule → ParseState → Bool) :
    Phrase Rule → ParseState → Bool
  | .seq first second, state =>
    first.conceals drawRule concealsRule state ||
      second.conceals drawRule concealsRule (state.moveTo (first.draw drawRule state).lexer)
  | .both first second, state =>
    first.conceals drawRule concealsRule state ||
      ((first.draw drawRule state).verdict != .failed &&
        second.conceals drawRule concealsRule (state.moveTo (first.draw drawRule state).lexer))
  | .branch test yes no, state =>
    if test.holds state then yes.conceals drawRule concealsRule state
    else no.conceals drawRule concealsRule state
  | .loop test body, state =>
    concealsLoop (fun state => test.holds state) (body.draw drawRule)
      (body.conceals drawRule concealsRule) state state.rounds
  | .node body, state | .slot _ body, state | .absorb body, state =>
    body.conceals drawRule concealsRule state
  | .chain head test field body, state =>
    let reading := head.draw drawRule state
    head.conceals drawRule concealsRule state ||
      (reading.verdict == .node &&
        concealsChain (fun state => test.holds state) field (body.draw drawRule)
          (body.conceals drawRule concealsRule) state reading (state.moveTo reading.lexer).rounds)
  | .look probe yes no, state =>
    let probed := probe.draw drawRule state
    probe.conceals drawRule concealsRule state || (tellsRefusal probed.reports ||
      if probed.isClean then yes.conceals drawRule concealsRule state
      else no.conceals drawRule concealsRule state)
  | .attempt body yes no, state =>
    let tried := body.draw drawRule state
    body.conceals drawRule concealsRule state ||
      if tried.isClean then yes.conceals drawRule concealsRule (state.moveTo tried.lexer)
      else tellsRefusal tried.reports || no.conceals drawRule concealsRule state
  | .blame shape reading, state =>
    (shape.conceals drawRule concealsRule state ||
        tellsRefusal (shape.draw drawRule state).reports) ||
      (reading.conceals drawRule concealsRule state ||
        tellsRefusal (reading.draw drawRule state).reports)
  | .recover element, state =>
    let reading := element.draw drawRule state
    element.conceals drawRule concealsRule state ||
      (reading.failures != 0 && tellsRefusal reading.reports.tail)
  | .nested body, state =>
    state.depth < state.limit &&
      body.conceals drawRule concealsRule { state with depth := state.depth + 1 }
  | .call rule, state => concealsRule rule state
  | _, _ => false

def concealsRule (grammar : Rule → Phrase Rule) : Nat → Rule → ParseState → Bool
  | 0, _, _ => false
  | budget + 1, rule, state =>
    (grammar rule).conceals (drawRule grammar budget) (concealsRule grammar budget) state

/-- A way of drawing gives at the limit `limit` what another one gives at a smaller limit, unless
that breaks a rule of use or reports or conceals a refusal. -/
def Bears (limit : Nat) (draw draw' : ParseState → Reading) (conceals : ParseState → Bool) : Prop :=
  ∀ state : ParseState, state.limit ≤ limit → (draw state).Unrefused (conceals state) →
    draw' (state.withLimit limit) = draw state

variable {limit : Nat}

theorem Bears.loop {test : Test} {step step' : ParseState → Reading}
    {conceals : ParseState → Bool} (h : Bears limit step step' conceals) (state : ParseState)
    (hl : state.limit ≤ limit) {rounds : Nat}
    (hu : (drawLoop (fun state => test.holds state) step state rounds).Unrefused
      (concealsLoop (fun state => test.holds state) step conceals state rounds)) :
    drawLoop (fun state => test.holds state) step' (state.withLimit limit) rounds =
      drawLoop (fun state => test.holds state) step state rounds := by
  induction rounds generalizing state with
  | zero => cases hu.kept
  | succ rounds ih =>
    simp only [drawLoop, concealsLoop, Test.holds_withLimit] at hu ⊢
    by_cases ht : test.holds state = true
    · simp only [ht, if_true, Bool.true_and] at hu ⊢
      by_cases hv : (step state).verdict = .failed
      · simp only [hv, if_true, bne_self_eq_false, Bool.false_and, Bool.or_false] at hu
        rw [h state hl ⟨hu.kept, hu.untold, hu.shown⟩, if_pos hv, if_pos hv]
      · simp only [if_neg hv, bne_iff_ne.mpr hv, Bool.true_and] at hu
        obtain ⟨hstep, hrest⟩ := hu.of_andThen
        rw [h state hl hstep, if_neg hv, if_neg hv]
        exact congrArg _ (ih (state.moveTo (step state).lexer) hl hrest)
    · rw [if_neg ht, if_neg ht]
      rfl

/-- By induction on the rounds: a larger limit changes no round that was not refused, and no refusal
is hidden in the node so far. -/
theorem Bears.chain {test : Test} {field : Kind → Field} {step step' : ParseState → Reading}
    {conceals : ParseState → Bool} (h : Bears limit step step' conceals) (state : ParseState)
    (hl : state.limit ≤ limit) {reading : Reading} {rounds : Nat}
    (hu : (drawChain (fun state => test.holds state) field step state reading rounds).Unrefused
      (concealsChain (fun state => test.holds state) field step conceals state reading rounds)) :
    tellsRefusal reading.reports = false ∧
    drawChain (fun state => test.holds state) field step' (state.withLimit limit) reading rounds =
      drawChain (fun state => test.holds state) field step state reading rounds := by
  induction rounds generalizing state reading with
  | zero => cases hu.kept
  | succ rounds ih =>
    have htest : test.holds ((state.withLimit limit).moveTo reading.lexer) =
        test.holds (state.moveTo reading.lexer) :=
      test.holds_withLimit (state.moveTo reading.lexer) limit
    simp only [drawChain, concealsChain, htest] at hu ⊢
    by_cases ht : test.holds (state.moveTo reading.lexer) = true
    · simp only [ht, if_true, Bool.true_and] at hu ⊢
      -- a broken rule of use would stop the chain, but none is broken here
      by_cases hw : ((reading.fill (field (state.moveTo reading.lexer).kind)).wrap
          (step (state.moveTo reading.lexer))).misused = true
      · rw [if_pos hw] at hu
        exact absurd hw (Bool.eq_false_iff.mp hu.kept)
      · rw [if_neg hw] at hu ⊢
        obtain ⟨hbody, hrest⟩ := Bool.or_eq_false_iff.mp hu.shown
        obtain ⟨huntold, heq⟩ := ih (state.moveTo reading.lexer) hl
          ⟨hu.kept, hu.untold, hrest⟩
        obtain ⟨hreading, hstep⟩ := untold_of_wrap (Bool.eq_false_iff.mpr hw) huntold hbody
        have heq' : step' ((state.withLimit limit).moveTo reading.lexer) =
            step (state.moveTo reading.lexer) := h (state.moveTo reading.lexer) hl hstep
        refine ⟨fill_reports reading _ ▸ hreading, ?_⟩
        rw [heq']
        exact (if_neg hw).trans heq
    · simp only [if_neg ht] at hu ⊢
      exact ⟨hu.untold, trivial⟩

/-- A phrase that neither reports nor conceals a refusal is the same at every greater limit. -/
theorem Bears.phrase {drawRule drawRule' : Rule → ParseState → Reading}
    {concealsRule : Rule → ParseState → Bool}
    (hrules : ∀ rule, Bears limit (drawRule rule) (drawRule' rule) (concealsRule rule))
    (phrase : Phrase Rule) :
    Bears limit (phrase.draw drawRule) (phrase.draw drawRule')
      (phrase.conceals drawRule concealsRule) := by
  induction phrase with
  | done | reject | take | expect | close | missing | refuse | demand | relex | choose =>
    exact fun state _ _ => rfl
  | seq first second ih ih' =>
    intro state hl hu
    obtain ⟨hfirst, hsecond⟩ := Unrefused.of_andThen hu
    have heq := ih state hl hfirst
    have heq' := ih' (state.moveTo (first.draw drawRule state).lexer) hl hsecond
    simp only [draw, heq]
    exact congrArg _ heq'
  | both first second ih ih' =>
    intro state hl hu
    simp only [draw, conceals] at hu ⊢
    -- the second phrase conceals nothing where it is not read
    by_cases hv : (first.draw drawRule state).verdict = .failed
    · simp only [hv, if_true, bne_self_eq_false, Bool.false_and, Bool.or_false] at hu
      rw [ih state hl hu, if_pos hv, if_pos hv]
    · simp only [if_neg hv, bne_iff_ne.mpr hv, Bool.true_and] at hu
      obtain ⟨hfirst, hsecond⟩ := hu.of_andThen
      have heq' := ih' (state.moveTo (first.draw drawRule state).lexer) hl hsecond
      rw [ih state hl hfirst, if_neg hv, if_neg hv]
      exact congrArg _ heq'
  | branch test yes no ih ih' =>
    intro state hl hu
    simp only [draw, conceals, Test.holds_withLimit] at hu ⊢
    by_cases ht : test.holds state = true
    · rw [if_pos ht, if_pos ht] at hu
      rw [if_pos ht, if_pos ht]
      exact ih state hl hu
    · rw [if_neg ht, if_neg ht] at hu
      rw [if_neg ht, if_neg ht]
      exact ih' state hl hu
  | loop test body ih => exact fun state hl hu => ih.loop state hl hu
  | node body ih =>
    intro state hl hu
    -- a node has the reports of its body, so the body has not been refused either
    have hbody : (body.draw drawRule state).Unrefused (body.conceals drawRule concealsRule state) :=
      ⟨misused_of_close hu.kept, close_reports (body.draw drawRule state) ▸ hu.untold, hu.shown⟩
    simp only [draw, ih state hl hbody]
  | slot field body ih =>
    intro state hl hu
    have hbody : (body.draw drawRule state).Unrefused (body.conceals drawRule concealsRule state) :=
      ⟨misused_of_fill hu.kept, fill_reports (body.draw drawRule state) _ ▸ hu.untold, hu.shown⟩
    simp only [draw, ih state hl hbody]
    rfl
  | chain head test field body ih ih' =>
    intro state hl hu
    simp only [draw, conceals] at hu ⊢
    by_cases hv : (head.draw drawRule state).verdict = .node
    · simp only [hv, if_true, beq_self_eq_true, Bool.true_and] at hu
      obtain ⟨hhead, hchain⟩ := Bool.or_eq_false_iff.mp hu.shown
      obtain ⟨huntold, heq⟩ := ih'.chain state hl ⟨hu.kept, hu.untold, hchain⟩
      rw [ih state hl ⟨misused_of_drawChain hu.kept, huntold, hhead⟩, if_pos hv, if_pos hv]
      exact heq
    · rw [if_neg hv] at hu
      obtain ⟨hhead, -⟩ := Bool.or_eq_false_iff.mp hu.shown
      rw [ih state hl ⟨hu.kept, hu.untold, hhead⟩, if_neg hv, if_neg hv]
  | look probe yes no ih ih' ih'' =>
    intro state hl hu
    simp only [draw, conceals] at hu ⊢
    -- the reports of a probe are lost, so it counts as concealing what they tell
    obtain ⟨hprobe, hrest⟩ := hu.of_instead
    rw [ih state hl hprobe]
    by_cases hc : (probe.draw drawRule state).isClean = true
    · rw [if_pos hc, if_pos hc] at hrest
      rw [if_pos hc, if_pos hc, ih' state hl hrest]
    · rw [if_neg hc, if_neg hc] at hrest
      rw [if_neg hc, if_neg hc, ih'' state hl hrest]
  | attempt body yes no ih ih' ih'' =>
    intro state hl hu
    simp only [draw, conceals] at hu ⊢
    by_cases hc : (body.draw drawRule state).isClean = true
    · rw [if_pos hc, if_pos hc] at hu
      obtain ⟨hbody, hyes⟩ := hu.of_andThen
      have heq' := ih' (state.moveTo (body.draw drawRule state).lexer) hl hyes
      rw [ih state hl hbody, if_pos hc, if_pos hc]
      exact congrArg _ heq'
    · rw [if_neg hc, if_neg hc] at hu
      -- here those of the body are lost
      obtain ⟨hbody, hno⟩ := hu.of_instead
      rw [ih state hl hbody, if_neg hc, if_neg hc, ih'' state hl hno]
  | blame shape reading ih ih' =>
    intro state hl hu
    obtain ⟨hkept, -, hshown⟩ := hu
    simp only [draw, conceals, Bool.or_eq_false_iff] at hkept hshown
    obtain ⟨⟨hshape, hshape'⟩, hreading, hreading'⟩ := hshown
    simp only [draw, ih state hl ⟨hkept.1, hshape', hshape⟩,
      ih' state hl ⟨hkept.2, hreading', hreading⟩]
    rfl
  | recover element ih =>
    intro state hl hu
    simp only [draw, conceals] at hu ⊢
    by_cases hf : (element.draw drawRule state).failures = 0
    · rw [if_pos hf] at hu
      obtain ⟨helement, -⟩ := Bool.or_eq_false_iff.mp hu.shown
      rw [ih state hl ⟨hu.kept, hu.untold, helement⟩, if_pos hf, if_pos hf]
    · rw [if_neg hf] at hu
      obtain ⟨helement, htail⟩ := Bool.or_eq_false_iff.mp hu.shown
      rw [bne_iff_ne.mpr hf, Bool.true_and] at htail
      -- the first report is kept, and the others tell of no refusal
      have huntold : tellsRefusal (element.draw drawRule state).reports = false := by
        have hfirst := hu.untold
        simp only [skipped] at hfirst
        generalize (element.draw drawRule state).reports = reports at hfirst htail ⊢
        cases reports with
        | nil => rfl
        | cons first rest =>
          rw [← List.singleton_append, tellsRefusal_append]
          exact Bool.or_eq_false_iff.mpr ⟨hfirst, htail⟩
      rw [ih state hl ⟨hu.kept, huntold, helement⟩, if_neg hf, if_neg hf, skipped_withLimit]
  | absorb body ih =>
    intro state hl hu
    simp only [draw, ih state hl ⟨hu.kept, hu.untold, hu.shown⟩]
  | nested body ih =>
    intro state hl hu
    simp only [draw, conceals] at hu ⊢
    by_cases hd : state.limit ≤ state.depth
    · -- at the limit a refusal is reported
      rw [if_pos hd] at hu
      cases hu.untold
    · rw [if_neg hd, decide_eq_true (Nat.lt_of_not_le hd), Bool.true_and] at hu
      have hd' : ¬ (state.withLimit limit).limit ≤ (state.withLimit limit).depth :=
        fun hle => hd (Nat.le_trans hl hle)
      rw [if_neg hd, if_neg hd']
      exact ih { state with depth := state.depth + 1 } hl hu
  | call rule => exact hrules rule

/-- So it is for the rules of a grammar, and a greater limit may come with a greater budget. -/
theorem bears_drawRule (grammar : Rule → Phrase Rule) {budget budget' : Nat}
    (h : budget ≤ budget') (rule : Rule) :
    Bears limit (drawRule grammar budget rule) (drawRule grammar budget' rule)
      (concealsRule grammar budget rule) := by
  induction budget generalizing budget' rule with
  | zero => exact fun state _ hu => nomatch hu.kept
  | succ budget ih =>
    obtain ⟨budget', rfl⟩ : ∃ more, budget' = more + 1 := ⟨budget' - 1, by omega⟩
    exact Bears.phrase (ih (Nat.le_of_succ_le_succ h)) (grammar rule)

end Phrase

end ScriptTree

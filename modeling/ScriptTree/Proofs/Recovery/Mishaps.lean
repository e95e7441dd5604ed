import ScriptTree.Proofs.Parser.Alike
import ScriptTree.Proofs.Parser.Extent
import ScriptTree.Proofs.Recovery.Confined

/-!
The mishaps of a reading: what it gave up, in the order of its error nodes. An element that was
skipped is recorded with the state where it was tried and with the reading that failed; a token that
a complaint took into a node of its own is recorded as refused. Nothing is recorded of a reading
that was taken back, so the mishaps are the error nodes that are left.
-/

namespace ScriptTree

namespace Shape

mutual

def errors : Shape → List (List Token)
  | .leaf _ _ => []
  | .node kind _ children =>
    (if kind = .error then [tokensAll children] else []) ++ errorsAll children

def errorsAll : List Shape → List (List Token)
  | [] => []
  | shape :: rest => shape.errors ++ errorsAll rest

end

@[simp] theorem errorsAll_nil : errorsAll [] = [] := by
  rw [errorsAll]

@[simp] theorem errorsAll_append (xs ys : List Shape) :
    errorsAll (xs ++ ys) = errorsAll xs ++ errorsAll ys := by
  induction xs with
  | nil => simp
  | cons shape rest ih => simp [errorsAll, ih]

@[simp] theorem errorsAll_singleton (shape : Shape) : errorsAll [shape] = shape.errors := by
  simp [errorsAll]

@[simp] theorem errorsAll_fillLast (field : Field) (shapes : List Shape) :
    errorsAll (fillLast field shapes) = errorsAll shapes := by
  rcases List.eq_nil_or_concat shapes with rfl | ⟨front, last, rfl⟩
  · rfl
  · rw [List.concat_eq_append, fillLast_append_singleton]
    cases last <;> simp [withField, errors]

@[simp] theorem errorsAll_leaves (tokens : List Token) (clear : Token → Token) :
    errorsAll (tokens.map fun token => .leaf (clear token) none) = [] := by
  induction tokens with
  | nil => rfl
  | cons token rest ih => simpa [errorsAll, errors] using ih

/-- The last shape can be put into a node of its own that is no error node. -/
theorem errorsAll_wrap {kind : Kind} (hkind : kind ≠ .error) (shapes body : List Shape) :
    errorsAll (shapes.dropLast ++ [.node kind none (shapes.getLast?.toList ++ body)]) =
      errorsAll shapes ++ errorsAll body := by
  rcases List.eq_nil_or_concat shapes with rfl | ⟨front, last, rfl⟩
  · simp [errors, hkind]
  · simp [errors, hkind, errorsAll]

end Shape

/-- What was given up: an element that failed, with the state where it was tried and its reading, or
the tokens that a complaint took into a node. -/
inductive Mishap (Rule : Type) where
  | lost (element : Phrase Rule) (state : ParseState) (reading : Reading)
  | refused (tokens : List Token)

namespace Mishap

variable {Rule : Type}

def tokens : Mishap Rule → List Token
  | .lost _ state reading => Shape.tokensAll (Reading.skipped state reading).shapes
  | .refused tokens => tokens

def report? : Mishap Rule → Option Diagnostic
  | .lost _ _ reading => reading.reports.head?
  | .refused _ => none

end Mishap

namespace Phrase

open ParseState Reading

variable {Rule : Type}

def loopMishaps (test : ParseState → Bool) (step : ParseState → Reading)
    (mishaps : ParseState → List (Mishap Rule)) (state : ParseState) : Nat → List (Mishap Rule)
  | 0 => []
  | limit + 1 =>
    if test state then
      let reading := step state
      if reading.verdict = .failed then mishaps state
      else mishaps state ++ loopMishaps test step mishaps (state.moveTo reading.lexer) limit
    else
      []

def chainMishaps (test : ParseState → Bool) (field : Kind → Field) (step : ParseState → Reading)
    (mishaps : ParseState → List (Mishap Rule)) (state : ParseState) (reading : Reading) :
    Nat → List (Mishap Rule)
  | 0 => []
  | limit + 1 =>
    let state := state.moveTo reading.lexer
    if test state then
      let wrapped := (reading.fill (field state.kind)).wrap (step state)
      mishaps state ++ chainMishaps test field step mishaps state wrapped limit
    else
      []

def mishaps (drawRule : Rule → ParseState → Reading)
    (mishapsOf : Rule → ParseState → List (Mishap Rule)) :
    Phrase Rule → ParseState → List (Mishap Rule)
  | .seq first second, state =>
    first.mishaps drawRule mishapsOf state ++
      second.mishaps drawRule mishapsOf (state.moveTo (first.draw drawRule state).lexer)
  | .both first second, state =>
    let reading := first.draw drawRule state
    if reading.verdict = .failed then first.mishaps drawRule mishapsOf state
    else
      first.mishaps drawRule mishapsOf state ++
        second.mishaps drawRule mishapsOf (state.moveTo reading.lexer)
  | .branch test yes no, state =>
    if test.holds state then yes.mishaps drawRule mishapsOf state
    else no.mishaps drawRule mishapsOf state
  | .loop test body, state =>
    loopMishaps (fun state => test.holds state) (body.draw drawRule)
      (body.mishaps drawRule mishapsOf) state state.rounds
  | .node body, state =>
    let reading := body.draw drawRule state
    if reading.verdict = .chose .error then
      .refused (Shape.tokensAll reading.shapes) :: body.mishaps drawRule mishapsOf state
    else body.mishaps drawRule mishapsOf state
  | .chain head test field body, state =>
    let reading := head.draw drawRule state
    if reading.verdict = .node then
      head.mishaps drawRule mishapsOf state ++
        chainMishaps (fun state => test.holds state) field (body.draw drawRule)
          (body.mishaps drawRule mishapsOf) state reading (state.moveTo reading.lexer).rounds
    else head.mishaps drawRule mishapsOf state
  | .look probe yes no, state =>
    if (probe.draw drawRule state).isClean then yes.mishaps drawRule mishapsOf state
    else no.mishaps drawRule mishapsOf state
  | .attempt body yes no, state =>
    let tried := body.draw drawRule state
    if tried.isClean then
      body.mishaps drawRule mishapsOf state ++
        yes.mishaps drawRule mishapsOf (state.moveTo tried.lexer)
    else no.mishaps drawRule mishapsOf state
  | .recover element, state =>
    let reading := element.draw drawRule state
    if reading.failures = 0 then element.mishaps drawRule mishapsOf state
    else [.lost element state reading]
  | .slot _ body, state | .absorb body, state => body.mishaps drawRule mishapsOf state
  | .nested body, state =>
    if state.limit ≤ state.depth then []
    else body.mishaps drawRule mishapsOf { state with depth := state.depth + 1 }
  | .call rule, state => mishapsOf rule state
  | _, _ => []

def ruleMishaps (grammar : Rule → Phrase Rule) : Nat → Rule → ParseState → List (Mishap Rule)
  | 0, _, _ => []
  | budget + 1, rule, state =>
    (grammar rule).mishaps (drawRule grammar budget) (ruleMishaps grammar budget) state

/-- Whether a phrase tries its elements only where the text has not ended, if the lookahead is of
some kind. -/
def triesAhead : Phrase Rule → KindSet → Bool
  | .recover element, here => !here.contains .eof && element.triesAhead here
  | .seq first second, here | .both first second, here =>
    first.triesAhead here && second.triesAhead .full
  | .branch test yes no, here => yes.triesAhead (here.inter test.admits) && no.triesAhead here
  | .loop test body, _ => body.triesAhead test.admits
  | .chain head _ _ body, here => head.triesAhead here && body.triesAhead .full
  | .look _ yes no, here => yes.triesAhead here && no.triesAhead here
  | .attempt body yes no, here =>
    body.triesAhead here && yes.triesAhead .full && no.triesAhead here
  | .node body, here | .slot _ body, here | .absorb body, here | .nested body, here =>
    body.triesAhead here
  | _, _ => true

end Phrase

structure Reading.Tells {Rule : Type} (holds : Mishap Rule → Prop) (reading : Reading)
    (mishaps : List (Mishap Rule)) : Prop where
  errors : Shape.errorsAll reading.shapes = mishaps.map Mishap.tokens
  reports : ∀ mishap ∈ mishaps, ∀ report ∈ mishap.report?, report ∈ reading.reports
  holds : ∀ mishap ∈ mishaps, holds mishap

namespace Reading

open ParseState

variable {Rule : Type} {holds : Mishap Rule → Prop} {first second reading body : Reading}
  {mishaps mishaps' : List (Mishap Rule)}

theorem tells_nothing (h : Shape.errorsAll reading.shapes = []) : reading.Tells holds [] :=
  ⟨by simpa using h, by simp, by simp⟩

theorem tells_taken (state : ParseState) (field : Option Field) :
    (taken state field).Tells holds [] := by
  apply tells_nothing
  unfold taken
  split
  · rfl
  · simp [Shape.errors]

theorem Tells.congr (h : first.Tells holds mishaps) (hshapes : second.shapes = first.shapes)
    (hreports : second.reports = first.reports) : second.Tells holds mishaps :=
  ⟨hshapes ▸ h.errors, hreports ▸ h.reports, h.holds⟩

/-- The mishaps of two readings, one after the other, are those of both. -/
theorem Tells.andThen (h : first.Tells holds mishaps) (h' : second.Tells holds mishaps') :
    (first.andThen second).Tells holds (mishaps ++ mishaps') := by
  refine ⟨?_, ?_, ?_⟩
  · simp [Reading.andThen, h.errors, h'.errors]
  · intro mishap hmem report hreport
    apply List.mem_append.mpr
    rcases List.mem_append.mp hmem with hmem | hmem
    · exact Or.inl (h.reports mishap hmem report hreport)
    · exact Or.inr (h'.reports mishap hmem report hreport)
  · intro mishap hmem
    rcases List.mem_append.mp hmem with hmem | hmem
    · exact h.holds mishap hmem
    · exact h'.holds mishap hmem

theorem Tells.fill (h : reading.Tells holds mishaps) (field : Field) :
    (reading.fill field).Tells holds mishaps := by
  by_cases hverdict : reading.verdict = .node
  · rw [fill_of_node hverdict]
    exact ⟨by simpa using h.errors, h.reports, h.holds⟩
  · rwa [fill_of_ne_node hverdict]

/-- A node is an error node only if a complaint says so. -/
theorem Tells.close (h : reading.Tells holds mishaps)
    (hrefused : ∀ tokens, holds (.refused tokens)) :
    reading.close.Tells holds (if reading.verdict = .chose .error then
      .refused (Shape.tokensAll reading.shapes) :: mishaps else mishaps) := by
  have herrors := h.errors
  unfold Reading.close
  split
  · next kind hverdict =>
    by_cases hkind : kind = .error
    · subst hkind
      rw [if_pos hverdict]
      refine ⟨by simp [Shape.errors, herrors, Mishap.tokens], ?_, ?_⟩
      · intro mishap hmem report hreport
        rcases List.mem_cons.mp hmem with rfl | hmem
        · cases hreport
        · exact h.reports mishap hmem report hreport
      · intro mishap hmem
        rcases List.mem_cons.mp hmem with rfl | hmem
        · exact hrefused _
        · exact h.holds mishap hmem
    · rw [if_neg (by simpa [hverdict] using hkind)]
      exact ⟨by simpa [Shape.errors, hkind] using herrors, h.reports, h.holds⟩
  · next hother =>
    rw [if_neg (hother .error)]
    exact h.congr rfl rfl

theorem Tells.wrap (h : reading.Tells holds mishaps) (hbody : body.Tells holds mishaps')
    {kind : Kind} (hverdict : body.verdict = .chose kind) (hkind : kind ≠ .error) :
    (reading.wrap body).Tells holds (mishaps ++ mishaps') := by
  have hboth := h.andThen hbody
  rw [wrap_of_chose hverdict]
  refine ⟨?_, hboth.reports, hboth.holds⟩
  rw [Shape.errorsAll_wrap hkind, ← hboth.errors]
  simp [Reading.andThen]

/-- Of an element that is skipped, the first report is kept. -/
theorem tells_skipped (element : Phrase Rule) (state : ParseState) (dropped : Reading)
    (h : holds (.lost element state dropped)) :
    (skipped state dropped).Tells holds [.lost element state dropped] := by
  obtain ⟨tokens, last, hskips, -⟩ := skips_skipElement state.lexer 0 true state.rounds
  refine ⟨?_, ?_, by simpa using h⟩
  · simp only [Mishap.tokens, List.map_singleton, skipped_eq state dropped hskips]
    simp [Shape.errors, Shape.tokens]
  · intro mishap hmem report hreport
    obtain rfl := List.mem_singleton.mp hmem
    exact Option.mem_toList.mpr hreport

end Reading

namespace Phrase

open ParseState Reading

variable {Rule : Type} {holds : Mishap Rule → Prop} {text : String}
  {drawRule : Rule → ParseState → Reading}
  {mishapsOf : Rule → ParseState → List (Mishap Rule)}

def TellsOf (holds : Mishap Rule → Prop) (text : String) (here : KindSet)
    (draw : ParseState → Reading) (mishaps : ParseState → List (Mishap Rule)) : Prop :=
  ∀ state : ParseState, state.StandsIn text → here.contains state.kind = true →
    (draw state).misused = false → (draw state).Tells holds (mishaps state)

/-- The mishaps of a loop are those of its rounds in order. -/
theorem TellsOf.loop {test : Test} {step : ParseState → Reading}
    {mishaps : ParseState → List (Mishap Rule)} (h : TellsOf holds text test.admits step mishaps)
    (hacc : Accounts step) {state : ParseState} (hstate : state.StandsIn text) {limit : Nat}
    (hkept : (drawLoop (fun state => test.holds state) step state limit).misused = false) :
    (drawLoop (fun state => test.holds state) step state limit).Tells holds
      (loopMishaps (fun state => test.holds state) step mishaps state limit) := by
  induction limit generalizing state with
  | zero => cases hkept
  | succ limit ih =>
    by_cases htest : test.holds state = true
    · have hround := h state hstate (Test.contains_admits htest) (misused_of_drawLoop htest hkept)
      simp only [drawLoop, loopMishaps, if_pos htest] at hkept ⊢
      split
      · exact hround.congr rfl rfl
      · next hverdict =>
        rw [if_neg hverdict] at hkept
        exact hround.andThen (ih (hstate.moveTo (hacc state)).1 (Bool.or_eq_false_iff.mp hkept).2)
    · simp only [drawLoop, loopMishaps, if_neg htest]
      exact tells_nothing rfl

/-- The mishaps of a chain are those of the node so far and of each round around it. A node around
others leaves their error nodes in place. -/
theorem TellsOf.chain {test : ParseState → Bool} {field : Kind → Field}
    {step : ParseState → Reading} {mishaps : ParseState → List (Mishap Rule)}
    (h : TellsOf holds text .full step mishaps) (hacc : Accounts step) (hanswers : Answers step)
    {state : ParseState} {reading : Reading} {before : List (Mishap Rule)}
    (hreading : reading.Tells holds before)
    (hstate : (state.moveTo reading.lexer).StandsIn text) {limit : Nat}
    (hkept : (drawChain test field step state reading limit).misused = false) :
    (drawChain test field step state reading limit).Tells holds
      (before ++ chainMishaps test field step mishaps state reading limit) := by
  induction limit generalizing state reading before with
  | zero => cases hkept
  | succ limit ih =>
    simp only [drawChain, chainMishaps] at hkept ⊢
    split at hkept
    · next htest =>
      rw [if_pos htest, if_pos htest]
      split at hkept
      · next hmisused =>
        rw [hmisused] at hkept
        cases hkept
      · next hwrapped =>
        rw [if_neg hwrapped]
        obtain ⟨kind, hchose, -, -, hstep⟩ := chose_of_wrap (Bool.eq_false_iff.mpr hwrapped)
        have hkind : kind ≠ .error := by
          rintro rfl
          exact (hanswers _).other hchose
        have hlink := (hreading.fill (field (state.moveTo reading.lexer).kind)).wrap
          (h _ hstate (KindSet.contains_full _) hstep) hchose hkind
        rw [← List.append_assoc]
        refine ih hlink ?_ hkept
        rw [wrap_lexer]
        exact (hstate.moveTo (hacc _)).1
    · next htest =>
      rw [if_neg htest, if_neg htest, List.append_nil]
      exact hreading

/-- A complaint has no mishaps but for the node around it. -/
theorem tells_complaint {body : Phrase Rule} (h : body.isComplaint = true) (state : ParseState) :
    (body.draw drawRule state).Tells holds (body.mishaps drawRule mishapsOf state) := by
  have htaken (report : Diagnostic) (field : Option Field) (kind : Kind) :
      ((failing state report).andThen ((taken state field).andThen
        (stay (state.moveTo (taken state field).lexer) (.chose kind)))).Tells holds [] :=
    (tells_nothing rfl).andThen ((tells_taken state field).andThen (tells_nothing rfl))
  unfold isComplaint at h
  split at h
  · exact htaken _ _ _
  · exact htaken _ _ _
  · cases h

/-- The mishaps of a phrase are those of its reading, whatever is true of each element that it may
lose. -/
theorem tells_draw (hacc : ∀ rule, Accounts (drawRule rule))
    (hanswers : ∀ rule, Answers (drawRule rule))
    (hrules : ∀ rule, TellsOf holds text .full (drawRule rule) (mishapsOf rule))
    (hrefused : ∀ tokens, holds (.refused tokens)) {phrase : Phrase Rule}
    (h : phrase.answers = true) {here : KindSet} (hahead : phrase.triesAhead here = true)
    (hlost : ∀ element ∈ phrase.elements, ∀ state : ParseState, state.StandsIn text →
      state.kind ≠ .eof → (element.draw drawRule state).misused = false →
      (element.draw drawRule state).failures ≠ 0 →
      holds (.lost element state (element.draw drawRule state))) :
    TellsOf holds text here (phrase.draw drawRule) (phrase.mishaps drawRule mishapsOf) := by
  have haccounts (phrase : Phrase Rule) : Accounts (phrase.draw drawRule) :=
    Accounts.phrase hacc phrase
  have hfull (state : ParseState) : KindSet.full.contains state.kind = true :=
    KindSet.contains_full _
  -- the lookahead is followed along with the phrase, since an element is tried only where the text
  -- goes on
  induction phrase generalizing here with
  | take field => exact fun state _ _ _ => tells_taken state field
  | expect kind field =>
    intro state _ _ _
    simp only [draw, mishaps]
    split
    · exact tells_taken state field
    · exact tells_nothing rfl
  | close kind =>
    intro state _ _ _
    simp only [draw, mishaps]
    split
    · exact tells_taken state none
    · exact tells_nothing rfl
  | seq first second ih ih' =>
    simp only [answers, triesAhead, Bool.and_eq_true] at h hahead
    simp only [elements, List.forall_mem_append] at hlost
    intro state hstate hhere hkept
    obtain ⟨hfirst, hsecond⟩ := Bool.or_eq_false_iff.mp hkept
    exact (ih h.1 hahead.1 hlost.1 state hstate hhere hfirst).andThen
      (ih' h.2 hahead.2 hlost.2 _ (hstate.moveTo (haccounts first state)).1 (hfull _) hsecond)
  | both first second ih ih' =>
    simp only [answers, triesAhead, Bool.and_eq_true] at h hahead
    simp only [elements, List.forall_mem_append] at hlost
    intro state hstate hhere hkept
    have hfirst := ih h.1 hahead.1 hlost.1 state hstate hhere (misused_of_both hkept)
    simp only [draw, mishaps] at hkept ⊢
    split at hkept
    · next hverdict =>
      rw [if_pos hverdict, if_pos hverdict]
      exact hfirst
    · next hverdict =>
      rw [if_neg hverdict, if_neg hverdict]
      exact hfirst.andThen (ih' h.2 hahead.2 hlost.2 _ (hstate.moveTo (haccounts first state)).1
        (hfull _) (Bool.or_eq_false_iff.mp hkept).2)
  | branch test yes no ih ih' =>
    simp only [answers, triesAhead, Bool.and_eq_true] at h hahead
    simp only [elements, List.forall_mem_append] at hlost
    intro state hstate hhere
    simp only [draw, mishaps]
    split
    · next htest =>
      refine ih h.1 hahead.1 hlost.1 state hstate ?_
      rw [KindSet.contains_inter, hhere, Test.contains_admits htest]
      rfl
    · exact ih' h.2 hahead.2 hlost.2 state hstate hhere
  | loop test body ih =>
    intro state hstate _ hkept
    exact (ih h hahead hlost).loop (haccounts body) hstate hkept
  | node body ih =>
    simp only [answers, Bool.or_eq_true] at h
    intro state hstate hhere hkept
    have hbody :
        (body.draw drawRule state).Tells holds (body.mishaps drawRule mishapsOf state) := by
      -- the node of a complaint is a mishap itself, and nothing in it is one
      rcases h with h | h
      · exact tells_complaint h state
      · exact ih h hahead hlost state hstate hhere (misused_of_close hkept)
    exact hbody.close hrefused
  | slot field body ih =>
    intro state hstate hhere hkept
    exact (ih h hahead hlost state hstate hhere (misused_of_fill hkept)).fill _
  | chain head test field body ih ih' =>
    simp only [answers, triesAhead, Bool.and_eq_true] at h hahead
    simp only [elements, List.forall_mem_append] at hlost
    intro state hstate hhere hkept
    have hhead := ih h.1 hahead.1 hlost.1 state hstate hhere (misused_of_chain hkept)
    simp only [draw, mishaps] at hkept ⊢
    split at hkept
    · next hverdict =>
      rw [if_pos hverdict, if_pos hverdict]
      exact (ih' h.2 hahead.2 hlost.2).chain (haccounts body) (Answers.phrase hacc hanswers h.2)
        hhead (hstate.moveTo (haccounts head state)).1 hkept
    · next hverdict =>
      rw [if_neg hverdict, if_neg hverdict]
      exact hhead.congr rfl rfl
  | look probe yes no _ ih ih' =>
    simp only [answers, triesAhead, Bool.and_eq_true] at h hahead
    simp only [elements, List.forall_mem_append] at hlost
    intro state hstate hhere hkept
    -- the mishaps of the probe are taken back with it
    have hchosen := (Bool.or_eq_false_iff.mp hkept).2
    simp only [draw, mishaps] at hchosen ⊢
    split at hchosen
    · next hclean =>
      rw [if_pos hclean, if_pos hclean]
      exact (ih h.1 hahead.1 hlost.1.2 state hstate hhere hchosen).congr rfl rfl
    · next hclean =>
      rw [if_neg hclean, if_neg hclean]
      exact (ih' h.2 hahead.2 hlost.2 state hstate hhere hchosen).congr rfl rfl
  | attempt body yes no ih ih' ih'' =>
    simp only [answers, triesAhead, Bool.and_eq_true] at h hahead
    simp only [elements, List.forall_mem_append] at hlost
    intro state hstate hhere hkept
    have hbody := misused_of_attempt hkept
    simp only [draw, mishaps] at hkept ⊢
    split at hkept
    · next hclean =>
      rw [if_pos hclean, if_pos hclean]
      exact (ih h.1.1 hahead.1.1 hlost.1.1 state hstate hhere hbody).andThen
        (ih' h.1.2 hahead.1.2 hlost.1.2 _ (hstate.moveTo (haccounts body state)).1 (hfull _)
          (Bool.or_eq_false_iff.mp hkept).2)
    · next hclean =>
      rw [if_neg hclean, if_neg hclean]
      exact (ih'' h.2 hahead.2 hlost.2 state hstate hhere
        (Bool.or_eq_false_iff.mp hkept).2).congr rfl rfl
  | recover element ih =>
    simp only [triesAhead, Bool.and_eq_true, Bool.not_eq_true'] at hahead
    simp only [elements, List.forall_mem_cons] at hlost
    intro state hstate hhere hkept
    have helement := misused_of_recover hkept
    -- at the end of the text there would be nothing to skip
    have heof : state.kind ≠ .eof := by
      intro heof
      rw [heof, hahead.1] at hhere
      cases hhere
    simp only [draw, mishaps]
    split
    · exact (ih h hahead.2 hlost.2 state hstate hhere helement).congr rfl rfl
    · next hfailures =>
      exact tells_skipped element state _ (hlost.1 state hstate heof helement hfailures)
  | absorb body ih =>
    intro state hstate hhere hkept
    exact (ih h hahead hlost state hstate hhere hkept).congr rfl rfl
  | nested body ih =>
    intro state hstate hhere
    simp only [draw, mishaps]
    split
    · exact fun _ => tells_nothing rfl
    · exact ih h hahead hlost _ ⟨hstate.reached, hstate.size⟩ hhere
  | call rule => exact fun state hstate _ => hrules rule state hstate (hfull _)
  | _ => exact fun state _ _ _ => tells_nothing rfl

end Phrase

end ScriptTree

import ScriptTree.Proofs.Parser.Account

/-!
Every error node is answered by a report of its own. Error nodes come from skipped elements, whose
first report is kept, and from complaints that take the lookahead; no other phrase settles that a
node is an error.
-/

namespace ScriptTree

structure Reading.Answered (reading : Reading) : Prop where
  errors_le : Shape.countAll .error reading.shapes ≤ reading.reports.length
  other : reading.verdict ≠ .chose .error

namespace Phrase

variable {Rule : Type}

def isComplaint : Phrase Rule → Bool
  | .seq (.missing _) (.seq (.take _) (.choose _)) => true
  | .seq (.refuse _) (.seq (.take _) (.choose _)) => true
  | _ => false

def answers : Phrase Rule → Bool
  | .choose kind => kind != .error
  | .node body => body.isComplaint || body.answers
  | .seq first second | .both first second => first.answers && second.answers
  | .branch _ yes no | .look _ yes no => yes.answers && no.answers
  | .chain head _ _ body => head.answers && body.answers
  | .attempt body yes no => body.answers && yes.answers && no.answers
  | .loop _ body | .slot _ body | .recover body | .absorb body | .nested body => body.answers
  | _ => true

end Phrase

namespace Reading

open ParseState

theorem answered_nothing {reading : Reading} (hs : reading.shapes = [])
    (hv : reading.verdict ≠ .chose .error) : Answered reading :=
  ⟨by simp [hs], hv⟩

theorem answered_taken (state : ParseState) (field : Option Field) :
    Answered (taken state field) := by
  unfold taken
  split
  · exact answered_nothing rfl Verdict.noConfusion
  · exact ⟨by simp [Shape.count], Verdict.noConfusion⟩

theorem Answered.andThen {first second : Reading} (h : Answered first) (h' : Answered second) :
    Answered (first.andThen second) := by
  have hfirst := h.errors_le
  have hsecond := h'.errors_le
  refine ⟨?_, h'.other⟩
  simp only [Reading.andThen, Shape.countAll_append, List.length_append]
  omega

theorem Answered.close {reading : Reading} (h : Answered reading) : Answered reading.close := by
  unfold Reading.close
  split
  · next kind hv =>
    have hkind : kind ≠ .error := fun he => h.other (hv.trans (he ▸ rfl))
    exact ⟨by simpa [Shape.count, hkind] using h.errors_le, Verdict.noConfusion⟩
  · exact ⟨h.errors_le, Verdict.noConfusion⟩

theorem Answered.fill {reading : Reading} (h : Answered reading) (field : Field) :
    Answered (reading.fill field) := by
  by_cases hv : reading.verdict = .node
  · rw [fill_of_node hv]
    exact ⟨by simpa using h.errors_le, h.other⟩
  · rwa [fill_of_ne_node hv]

theorem Answered.wrap {reading body : Reading} (h : Answered reading) (hb : Answered body) :
    Answered (reading.wrap body) := by
  have hboth := h.andThen hb
  unfold Reading.wrap
  split
  · next kind hv =>
    have hkind : kind ≠ .error := fun he => hb.other (hv.trans (he ▸ rfl))
    refine ⟨?_, Verdict.noConfusion⟩
    rw [Shape.countAll_wrap, if_neg hkind]
    simpa [Reading.andThen] using hboth.errors_le
  · exact ⟨hboth.errors_le, hb.other⟩

/-- A skipped element keeps its first report. -/
theorem answered_skipped (state : ParseState) {dropped : Reading} (h : dropped.reports ≠ []) :
    Answered (skipped state dropped) := by
  obtain ⟨tokens, last, hs, _⟩ := skips_skipElement state.lexer 0 true state.rounds
  rw [skipped_eq state dropped hs]
  obtain ⟨report, rest, hreports⟩ := List.exists_cons_of_ne_nil h
  refine ⟨?_, Verdict.noConfusion⟩
  simp [Shape.count, hreports]

end Reading

namespace Phrase

open ParseState Reading

variable {Rule : Type}

/-- A complaint that is closed as a node is a mishap with its report. -/
theorem answered_complaint {drawRule : Rule → ParseState → Reading} {body : Phrase Rule}
    (h : body.isComplaint = true) (state : ParseState) :
    Answered (body.draw drawRule state).close := by
  have hcomplaint (report : Diagnostic) (field : Option Field) (kind : Kind) :
      Answered ((failing state report).andThen ((taken state field).andThen
        (stay (state.moveTo (taken state field).lexer) (.chose kind)))).close := by
    rw [close_of_chose rfl]
    refine ⟨?_, Verdict.noConfusion⟩
    have htaken := (answered_taken state field).errors_le
    have hnone : (taken state field).reports = [] := by
      unfold taken
      split <;> rfl
    simp only [hnone, List.length_nil] at htaken
    simp only [andThen, failing, stay, Shape.countAll_singleton, Shape.count, List.nil_append,
      List.append_nil, hnone, List.length_singleton]
    split <;> omega
  unfold isComplaint at h
  split at h
  · exact hcomplaint _ _ _
  · exact hcomplaint _ _ _
  · cases h

def Answers (draw : ParseState → Reading) : Prop :=
  ∀ state : ParseState, Answered (draw state)

theorem Answers.loop {test : ParseState → Bool} {step : ParseState → Reading} (h : Answers step)
    (limit : Nat) : Answers (drawLoop test step · limit) := by
  intro state
  induction limit generalizing state with
  | zero => exact answered_nothing rfl Verdict.noConfusion
  | succ limit ih =>
    simp only [drawLoop]
    split
    · split
      · exact ⟨(h state).errors_le, Verdict.noConfusion⟩
      · exact (h state).andThen (ih (state.moveTo (step state).lexer))
    · exact answered_nothing rfl Verdict.noConfusion

/-- By induction on the rounds; a node that is put around others has the same mishaps in it. -/
theorem Answers.chain {test : ParseState → Bool} {field : Kind → Field}
    {step : ParseState → Reading} (h : Answers step) {reading : Reading} (hr : Answered reading)
    (state : ParseState) (limit : Nat) :
    Answered (drawChain test field step state reading limit) := by
  induction limit generalizing state reading with
  | zero => exact ⟨hr.errors_le, hr.other⟩
  | succ limit ih =>
    simp only [drawChain]
    split
    · have hwrap := (hr.fill (field (state.moveTo reading.lexer).kind)).wrap
        (h (state.moveTo reading.lexer))
      split
      · exact hwrap
      · exact ih hwrap _
    · exact hr

/-- Drawing a phrase that makes error nodes of complaints only answers every error node. -/
theorem Answers.phrase {drawRule : Rule → ParseState → Reading}
    (hacc : ∀ rule, Accounts (drawRule rule)) (hrules : ∀ rule, Answers (drawRule rule))
    {phrase : Phrase Rule} (h : phrase.answers = true) : Answers (phrase.draw drawRule) := by
  induction phrase with
  | take field => exact fun state => answered_taken state field
  | expect kind field =>
    intro state
    simp only [draw]
    split
    · exact answered_taken state field
    · exact answered_nothing rfl Verdict.noConfusion
  | close kind =>
    intro state
    simp only [draw]
    split
    · exact answered_taken state none
    · exact answered_nothing rfl Verdict.noConfusion
  | seq first second ih ih' =>
    simp only [answers, Bool.and_eq_true] at h
    exact fun state => (ih h.1 state).andThen (ih' h.2 _)
  | both first second ih ih' =>
    simp only [answers, Bool.and_eq_true] at h
    intro state
    simp only [draw]
    split
    · exact ih h.1 state
    · exact (ih h.1 state).andThen (ih' h.2 _)
  | branch test yes no ih ih' =>
    simp only [answers, Bool.and_eq_true] at h
    intro state
    simp only [draw]
    split
    · exact ih h.1 state
    · exact ih' h.2 state
  | loop test body ih => exact fun state => (ih h).loop _ state
  | choose kind =>
    simp only [answers, bne_iff_ne] at h
    exact fun state => answered_nothing rfl fun hv => h (Verdict.chose.inj hv)
  | node body ih =>
    simp only [answers, Bool.or_eq_true] at h
    intro state
    rcases h with h | h
    · exact answered_complaint h state
    · exact (ih h state).close
  | slot field body ih => exact fun state => (ih h state).fill _
  | chain head test field body ih ih' =>
    simp only [answers, Bool.and_eq_true] at h
    intro state
    simp only [draw]
    split
    · exact (ih' h.2).chain (ih h.1 state) _ _
    · exact ⟨(ih h.1 state).errors_le, Verdict.noConfusion⟩
  | look probe yes no _ ih' ih'' =>
    simp only [answers, Bool.and_eq_true] at h
    intro state
    simp only [draw]
    split
    · exact ⟨(ih' h.1 state).errors_le, (ih' h.1 state).other⟩
    · exact ⟨(ih'' h.2 state).errors_le, (ih'' h.2 state).other⟩
  | attempt body yes no ih ih' ih'' =>
    simp only [answers, Bool.and_eq_true] at h
    intro state
    simp only [draw]
    split
    · exact (ih h.1.1 state).andThen (ih' h.1.2 _)
    · exact ⟨(ih'' h.2 state).errors_le, (ih'' h.2 state).other⟩
  | recover element ih =>
    intro state
    simp only [draw]
    split
    · exact ⟨(ih h state).errors_le, Verdict.noConfusion⟩
    · next hf =>
      -- an element that has failed has a report, so the node that is skipped is answered by the
      -- first of them
      have hle := (Accounts.phrase hacc element state).failures_le
      refine answered_skipped state fun hnone => hf ?_
      rw [hnone] at hle
      exact Nat.le_zero.mp hle
  | absorb body ih => exact fun state => ⟨(ih h state).errors_le, (ih h state).other⟩
  | nested body ih =>
    intro state
    simp only [draw]
    split
    · exact answered_nothing rfl Verdict.noConfusion
    · exact ih h { state with depth := state.depth + 1 }
  | call rule => exact hrules rule
  | _ => exact fun state => answered_nothing rfl Verdict.noConfusion

/-- Drawing a rule of a grammar whose phrases make error nodes of complaints only answers every
error node. -/
theorem answers_drawRule {grammar : Rule → Phrase Rule}
    (h : ∀ rule, (grammar rule).answers = true) (budget : Nat) (rule : Rule) :
    Answers (drawRule grammar budget rule) := by
  induction budget generalizing rule with
  | zero => exact fun state => answered_nothing rfl Verdict.noConfusion
  | succ budget ih => exact Answers.phrase (accounts_drawRule grammar budget) ih (h rule)

end Phrase

end ScriptTree

import ScriptTree.Proofs.Parser.Recording

/-!
What every reading accounts for, whatever the phrase: the leaves of its shapes are the tokens that
the lexer has passed, in order and without the end of the text, and every failure has a report. If
the phrase makes error nodes of complaints only, every error node has a report of its own as well.
-/

namespace ScriptTree

namespace Shape

@[simp] theorem tokensAll_fillLast (field : Field) (shapes : List Shape) :
    tokensAll (fillLast field shapes) = tokensAll shapes := by
  induction shapes with
  | nil => rfl
  | cons shape rest ih => cases rest <;> simp_all [fillLast, tokensAll]

@[simp] theorem countAll_fillLast (wanted : Kind) (field : Field) (shapes : List Shape) :
    countAll wanted (fillLast field shapes) = countAll wanted shapes := by
  induction shapes with
  | nil => rfl
  | cons shape rest ih => cases rest <;> simp_all [fillLast, countAll]

@[simp] theorem tokensAll_leaves (tokens : List Token) (clear : Token → Token) :
    tokensAll (tokens.map fun token => .leaf (clear token) none) = tokens.map clear := by
  induction tokens with
  | nil => rfl
  | cons token rest ih => simp [tokensAll, Shape.tokens, ih]

@[simp] theorem countAll_leaves (wanted : Kind) (tokens : List Token) (clear : Token → Token) :
    countAll wanted (tokens.map fun token => .leaf (clear token) none) = 0 := by
  induction tokens with
  | nil => rfl
  | cons token rest ih => simp [countAll, count, ih]

/-- The last shape can be put into a node of its own. -/
theorem tokensAll_wrap (kind : Kind) (field : Option Field) (shapes body : List Shape) :
    tokensAll (shapes.dropLast ++ [.node kind field (shapes.getLast?.toList ++ body)]) =
      tokensAll shapes ++ tokensAll body := by
  rcases List.eq_nil_or_concat shapes with rfl | ⟨front, last, rfl⟩
  · simp [tokens]
  · simp [tokens, tokensAll]

theorem countAll_wrap (wanted kind : Kind) (shapes body : List Shape) :
    countAll wanted (shapes.dropLast ++ [.node kind none (shapes.getLast?.toList ++ body)]) =
      countAll wanted shapes + countAll wanted body + if kind = wanted then 1 else 0 := by
  rcases List.eq_nil_or_concat shapes with rfl | ⟨front, last, rfl⟩
  · simp [count]
    omega
  · simp [count, countAll]
    omega

end Shape

/-- A reading accounts for the tokens from `lexer` on and for its failures. What is wrong with a
token is forgotten in error nodes only. -/
structure Reading.Accounted (lexer : Lexer) (reading : Reading) : Prop where
  reads : ∃ tokens, Lexer.Reads lexer tokens reading.lexer ∧
    (∀ token ∈ tokens, token.kind ≠ .eof) ∧
    (Shape.tokensAll reading.shapes).map Token.cleared = tokens.map Token.cleared ∧
    (Shape.countAll .error reading.shapes = 0 → Shape.tokensAll reading.shapes = tokens)
  failures_le : reading.failures ≤ reading.reports.length

namespace Reading

open ParseState

/-- Nothing is read, with or without a report. -/
theorem accounted_nothing {lexer : Lexer} {reading : Reading} (hl : reading.lexer = lexer)
    (hs : reading.shapes = []) (hf : reading.failures ≤ reading.reports.length) :
    Accounted lexer reading := by
  refine ⟨⟨[], ?_, by simp, by simp [hs], by simp [hs]⟩, hf⟩
  rw [hl]
  exact .refl lexer

theorem accounted_taken (state : ParseState) (field : Option Field) :
    Accounted state.lexer (taken state field) := by
  unfold taken
  split
  · exact accounted_nothing rfl rfl (Nat.le_refl _)
  · next hk =>
    refine ⟨⟨[state.current], .take (.refl _), List.forall_mem_singleton.mpr hk, ?_, ?_⟩,
      Nat.le_refl _⟩
    · simp [Shape.tokens]
    · simp [Shape.tokens]

/-- What two readings account for one after the other, they account for together. -/
theorem Accounted.andThen {lexer : Lexer} {first second : Reading} (h : Accounted lexer first)
    (h' : Accounted first.lexer second) : Accounted lexer (first.andThen second) := by
  obtain ⟨⟨tokens, hreads, heof, hclear, hexact⟩, hfailures⟩ := h
  obtain ⟨⟨tokens', hreads', heof', hclear', hexact'⟩, hfailures'⟩ := h'
  refine ⟨⟨tokens ++ tokens', hreads.trans hreads', ?_, ?_, ?_⟩, ?_⟩
  · intro token ht
    rcases List.mem_append.mp ht with ht | ht
    · exact heof token ht
    · exact heof' token ht
  · simp [Reading.andThen, hclear, hclear']
  · intro hz
    simp only [Reading.andThen, Shape.countAll_append, Nat.add_eq_zero_iff] at hz
    simp [Reading.andThen, hexact hz.1, hexact' hz.2]
  · simp only [Reading.andThen, List.length_append]
    omega

/-- The same shapes and reports, with no more failures. -/
theorem Accounted.settle {lexer : Lexer} {reading : Reading} (h : Accounted lexer reading)
    (verdict : Verdict) {failures : Nat} (hf : failures ≤ reading.failures) (misused : Bool) :
    Accounted lexer { reading with verdict, failures, misused } :=
  ⟨h.reads, Nat.le_trans hf h.failures_le⟩

theorem Accounted.fill {lexer : Lexer} {reading : Reading} (h : Accounted lexer reading)
    (field : Field) : Accounted lexer (reading.fill field) := by
  by_cases hv : reading.verdict = .node
  · rw [fill_of_node hv]
    exact ⟨by simpa using h.reads, h.failures_le⟩
  · rwa [fill_of_ne_node hv]

/-- The same tokens in other nodes, none of which is an error node less. -/
theorem Accounted.reshape {lexer : Lexer} {reading : Reading} (h : Accounted lexer reading)
    {shapes : List Shape} (ht : Shape.tokensAll shapes = Shape.tokensAll reading.shapes)
    (hc : Shape.countAll .error reading.shapes ≤ Shape.countAll .error shapes)
    (verdict : Verdict) (misused : Bool) :
    Accounted lexer { reading with verdict, shapes, misused } := by
  obtain ⟨tokens, hreads, heof, hclear, hexact⟩ := h.reads
  refine ⟨⟨tokens, hreads, heof, by rw [ht, hclear], ?_⟩, h.failures_le⟩
  intro hz
  rw [ht]
  exact hexact (Nat.le_zero.mp (hz ▸ hc))

theorem Accounted.close {lexer : Lexer} {reading : Reading} (h : Accounted lexer reading) :
    Accounted lexer reading.close := by
  unfold Reading.close
  split
  · refine h.reshape ?_ ?_ _ _
    · simp [Shape.tokens]
    · simp [Shape.count]
  · exact h.settle _ (Nat.le_refl _) _

theorem Accounted.wrap {lexer : Lexer} {reading body : Reading} (h : Accounted lexer reading)
    (hb : Accounted reading.lexer body) : Accounted lexer (reading.wrap body) := by
  have hboth := h.andThen hb
  unfold Reading.wrap
  split
  · refine hboth.reshape ?_ ?_ _ _
    · rw [Shape.tokensAll_wrap]
      simp [Reading.andThen]
    · rw [Shape.countAll_wrap]
      simp [Reading.andThen]
  · exact hboth.settle _ (Nat.le_refl _) _

theorem accounted_skipped (state : ParseState) (dropped : Reading) :
    Accounted state.lexer (skipped state dropped) := by
  obtain ⟨tokens, last, hs, _⟩ := skips_skipElement state.lexer 0 true state.rounds
  rw [skipped_eq state dropped hs]
  refine ⟨⟨tokens, hs.reads, hs.ne_eof, ?_, ?_⟩, Nat.zero_le _⟩
  · simp [Shape.tokens]
  · simp [Shape.count]

end Reading

namespace Phrase

open ParseState Reading

variable {Rule : Type}

def Accounts (draw : ParseState → Reading) : Prop :=
  ∀ state : ParseState, Accounted state.lexer (draw state)

theorem Accounts.andThen {first second : ParseState → Reading} (h : Accounts first)
    (h' : Accounts second) (state : ParseState) :
    Accounted state.lexer
      ((first state).andThen (second (state.moveTo (first state).lexer))) :=
  (h state).andThen (h' (state.moveTo (first state).lexer))

theorem Accounts.loop {test : ParseState → Bool} {step : ParseState → Reading}
    (h : Accounts step) (limit : Nat) : Accounts (drawLoop test step · limit) := by
  intro state
  induction limit generalizing state with
  | zero => exact accounted_nothing rfl rfl (Nat.le_refl _)
  | succ limit ih =>
    simp only [drawLoop]
    split
    · split
      · exact (h state).settle _ (Nat.le_refl _) _
      · exact (h state).andThen (ih (state.moveTo (step state).lexer))
    · exact accounted_nothing rfl rfl (Nat.le_refl _)

/-- By induction on the rounds; a node that is put around others holds the same tokens. -/
theorem Accounts.chain {test : ParseState → Bool} {field : Kind → Field}
    {step : ParseState → Reading} (h : Accounts step) {lexer : Lexer} {reading : Reading}
    (hr : Accounted lexer reading) (state : ParseState) (limit : Nat) :
    Accounted lexer (drawChain test field step state reading limit) := by
  induction limit generalizing state reading with
  | zero => exact hr.settle _ (Nat.le_refl _) _
  | succ limit ih =>
    simp only [drawChain]
    split
    · have hwrap := (hr.fill (field (state.moveTo reading.lexer).kind)).wrap
        (by rw [fill_lexer]; exact h (state.moveTo reading.lexer))
      split
      · exact hwrap
      · exact ih hwrap _
    · exact hr

/-- Drawing a phrase accounts for what it reads. -/
theorem Accounts.phrase {drawRule : Rule → ParseState → Reading}
    (hrules : ∀ rule, Accounts (drawRule rule)) (phrase : Phrase Rule) :
    Accounts (phrase.draw drawRule) := by
  have hstay {state : ParseState} {reading : Reading} (hl : reading.lexer = state.lexer)
      (hs : reading.shapes = []) (hf : reading.failures = 0) : Accounted state.lexer reading :=
    accounted_nothing hl hs (by simp [hf])
  have hfail (state : ParseState) (report : Diagnostic) :
      Accounted state.lexer (failing state report) :=
    accounted_nothing rfl rfl (Nat.le_refl _)
  induction phrase with
  | done => exact fun state => hstay rfl rfl rfl
  | reject => exact fun state => hstay rfl rfl rfl
  | take field => exact fun state => accounted_taken state field
  | expect kind field =>
    intro state
    simp only [draw]
    split
    · exact accounted_taken state field
    · exact hfail state _
  | close kind =>
    intro state
    simp only [draw]
    split
    · exact accounted_taken state none
    · exact hstay rfl rfl rfl
  | missing what => exact fun state => hfail state _
  | refuse message => exact fun state => hfail state _
  | demand kind => exact fun state => hstay rfl rfl rfl
  | relex mode =>
    intro state
    refine ⟨⟨[], .relex mode (.refl _), by simp, ?_, ?_⟩, Nat.le_refl _⟩ <;> simp [draw, stay]
  | seq first second ih ih' => exact fun state => ih.andThen ih' state
  | both first second ih ih' =>
    intro state
    simp only [draw]
    split
    · exact ih state
    · exact ih.andThen ih' state
  | branch test yes no ih ih' =>
    intro state
    simp only [draw]
    split
    · exact ih state
    · exact ih' state
  | loop test body ih => exact fun state => ih.loop _ state
  | choose kind => exact fun state => hstay rfl rfl rfl
  | node body ih => exact fun state => (ih state).close
  | slot field body ih => exact fun state => (ih state).fill _
  | chain head test field body ih ih' =>
    intro state
    simp only [draw]
    split
    · exact ih'.chain (ih state) _ _
    · exact (ih state).settle _ (Nat.le_refl _) _
  | look probe yes no ih ih' ih'' =>
    intro state
    simp only [draw]
    split
    · exact (ih' state).settle _ (Nat.le_refl _) _
    · exact (ih'' state).settle _ (Nat.le_refl _) _
  | attempt body yes no ih ih' ih'' =>
    intro state
    simp only [draw]
    split
    · exact ih.andThen ih' state
    · exact (ih'' state).settle _ (Nat.le_refl _) _
  | blame shape reading ih ih' => exact fun state => hstay rfl rfl rfl
  | recover element ih =>
    intro state
    simp only [draw]
    split
    · exact (ih state).settle _ (Nat.le_refl _) _
    · exact accounted_skipped state _
  | absorb body ih => exact fun state => (ih state).settle _ (Nat.zero_le _) _
  | nested body ih =>
    intro state
    simp only [draw]
    split
    · exact hfail state _
    · exact ih { state with depth := state.depth + 1 }
  | call rule => exact hrules rule

/-- Drawing a rule accounts for what it reads. -/
theorem accounts_drawRule (grammar : Rule → Phrase Rule) (budget : Nat) (rule : Rule) :
    Accounts (drawRule grammar budget rule) := by
  induction budget generalizing rule with
  | zero => exact fun state => accounted_nothing rfl rfl (Nat.le_refl _)
  | succ budget ih => exact Accounts.phrase ih (grammar rule)

end Phrase

end ScriptTree

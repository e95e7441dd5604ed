import ScriptTree.Proofs.Parser.Account

/-!
Where the reports of a reading are about, and where its errors come from. Every report is about a
token that is the lookahead somewhere on the way from the place where the phrase is read, and what
is wrong with a token that was taken was wrong with such a lookahead. In particular a report starts
in the text, and not before that place.
-/

namespace ScriptTree

namespace Lexer

def Meets (lexer : Lexer) (token : Token) : Prop :=
  ∃ tokens seen, Reads lexer tokens seen ∧ seen.current = token

theorem meets_current (lexer : Lexer) : lexer.Meets lexer.current :=
  ⟨[], lexer, .refl lexer, rfl⟩

theorem Reads.meets {a b : Lexer} {tokens : List Token} {token : Token} (h : Reads a tokens b)
    (hb : b.Meets token) : a.Meets token := by
  obtain ⟨tokens', seen, hreads, htoken⟩ := hb
  exact ⟨_, seen, h.trans hreads, htoken⟩

end Lexer

namespace ParseState

structure StandsIn (text : String) (state : ParseState) : Prop where
  reached : state.lexer.Reached text
  size : state.size = text.utf8ByteSize

variable {text : String} {state : ParseState}

theorem StandsIn.moveTo {reading : Reading} (h : state.StandsIn text)
    (hr : reading.Accounted state.lexer) :
    (state.moveTo reading.lexer).StandsIn text ∧
      state.lexer.start.offset ≤ reading.lexer.start.offset := by
  obtain ⟨tokens, hreads, -⟩ := hr.reads
  obtain ⟨chars, hpasses⟩ := (hreads.tiled h.reached.placed).passes
  exact ⟨⟨h.reached.reads hreads, h.size⟩, hpasses.offset_le⟩

/-- A token that is met on the way from a state starts in the text, and not before the state. -/
theorem StandsIn.span_start (h : state.StandsIn text) {token : Token}
    (hmeets : state.lexer.Meets token) :
    state.lexer.start.offset ≤ token.span.start ∧ token.span.start ≤ text.utf8ByteSize := by
  obtain ⟨tokens, seen, hreads, rfl⟩ := hmeets
  obtain ⟨chars, hpasses⟩ := (hreads.tiled h.reached.placed).passes
  have hseen := h.reached.reads hreads
  obtain ⟨hstart, hnext⟩ := hseen.placed.span_start
  have hbehind : seen.advance.Reached text := hseen.reads (.take (.refl _))
  exact ⟨Nat.le_trans hpasses.offset_le hstart, Nat.le_trans hnext hbehind.within.offset_le⟩

end ParseState

structure Reading.SeenFrom (lexer : Lexer) (reading : Reading) : Prop where
  reports : ∀ report ∈ reading.reports, ∃ token, lexer.Meets token ∧ token.span = report.span
  errors : ∀ token ∈ Shape.tokensAll reading.shapes, token.error = none ∨ lexer.Meets token

namespace Reading

open ParseState

variable {lexer : Lexer}

theorem seenFrom_nothing {reading : Reading} (hr : reading.reports = [])
    (hs : reading.shapes = []) : reading.SeenFrom lexer := by
  constructor <;> simp [hr, hs]

theorem seenFrom_taken (state : ParseState) (field : Option Field) :
    (taken state field).SeenFrom state.lexer := by
  unfold taken
  split
  · exact seenFrom_nothing rfl rfl
  · refine ⟨by simp [stay], ?_⟩
    intro token hmem
    obtain rfl : token = state.current := by simpa [Shape.tokens] using hmem
    exact Or.inr (Lexer.meets_current _)

/-- Nothing is taken, and there is one report about what is met. -/
theorem seenFrom_single {reading : Reading} {report : Diagnostic} {token : Token}
    (hreports : reading.reports = [report]) (hs : reading.shapes = [])
    (hmeets : lexer.Meets token) (hspan : token.span = report.span) : reading.SeenFrom lexer := by
  refine ⟨?_, by simp [hs]⟩
  intro found hmem
  rw [hreports] at hmem
  obtain rfl := List.mem_singleton.mp hmem
  exact ⟨token, hmeets, hspan⟩

/-- The same reports and the same tokens. -/
theorem SeenFrom.congr {a b : Reading} (h : a.SeenFrom lexer) (hr : b.reports = a.reports)
    (ht : Shape.tokensAll b.shapes = Shape.tokensAll a.shapes) : b.SeenFrom lexer :=
  ⟨hr ▸ h.reports, ht ▸ h.errors⟩

/-- What two readings see one after the other, they see together. -/
theorem SeenFrom.andThen {first second : Reading} (h : first.SeenFrom lexer)
    (hacc : first.Accounted lexer) (h' : second.SeenFrom first.lexer) :
    (first.andThen second).SeenFrom lexer := by
  obtain ⟨tokens, hreads, -⟩ := hacc.reads
  constructor
  · intro report hmem
    rcases List.mem_append.mp hmem with hmem | hmem
    · exact h.reports report hmem
    · obtain ⟨token, hmeets, hspan⟩ := h'.reports report hmem
      exact ⟨token, hreads.meets hmeets, hspan⟩
  · intro token hmem
    simp only [Reading.andThen, Shape.tokensAll_append, List.mem_append] at hmem
    rcases hmem with hmem | hmem
    · exact h.errors token hmem
    · exact (h'.errors token hmem).imp_right hreads.meets

theorem reports_close (reading : Reading) : reading.close.reports = reading.reports := by
  unfold close
  split <;> rfl

theorem reports_fill (reading : Reading) (field : Field) :
    (reading.fill field).reports = reading.reports := by
  unfold fill
  split <;> rfl

theorem reports_wrap (reading body : Reading) :
    (reading.wrap body).reports = reading.reports ++ body.reports := by
  unfold wrap
  split <;> rfl

theorem SeenFrom.close {reading : Reading} (h : reading.SeenFrom lexer) :
    reading.close.SeenFrom lexer := by
  refine h.congr (reports_close reading) ?_
  unfold Reading.close
  split
  · simp [Shape.tokens]
  · rfl

theorem SeenFrom.fill {reading : Reading} (h : reading.SeenFrom lexer) (field : Field) :
    (reading.fill field).SeenFrom lexer := by
  refine h.congr (reports_fill reading field) ?_
  unfold Reading.fill
  split
  · exact Shape.tokensAll_fillLast _ _
  · rfl

theorem SeenFrom.wrap {reading body : Reading} (h : reading.SeenFrom lexer)
    (hacc : reading.Accounted lexer) (hb : body.SeenFrom reading.lexer) :
    (reading.wrap body).SeenFrom lexer := by
  refine (h.andThen hacc hb).congr (reports_wrap reading body) ?_
  unfold Reading.wrap
  split
  · rw [Shape.tokensAll_wrap]
    simp [Reading.andThen]
  · rfl

/-- Of a skipped element the first report is kept, and what is wrong with its tokens is forgotten.
-/
theorem SeenFrom.skipped {state : ParseState} {dropped : Reading}
    (h : dropped.SeenFrom state.lexer) : (skipped state dropped).SeenFrom state.lexer := by
  obtain ⟨tokens, last, hs, -⟩ := skips_skipElement state.lexer 0 true state.rounds
  rw [skipped_eq state dropped hs]
  constructor
  · exact fun report hmem =>
      h.reports report (List.mem_of_head? (Option.mem_toList.mp hmem))
  · intro token hmem
    simp only [Shape.tokensAll_singleton, Shape.tokens, Shape.tokensAll_leaves, List.mem_map]
      at hmem
    obtain ⟨held, -, rfl⟩ := hmem
    exact Or.inl rfl

end Reading

namespace Phrase

open ParseState Reading

variable {Rule : Type} {drawRule : Rule → ParseState → Reading}

def SeesAhead (draw : ParseState → Reading) : Prop :=
  ∀ state : ParseState, (draw state).SeenFrom state.lexer

theorem SeesAhead.andThen {first second : ParseState → Reading} (h : SeesAhead first)
    (hacc : Accounts first) (h' : SeesAhead second) (state : ParseState) :
    ((first state).andThen (second (state.moveTo (first state).lexer))).SeenFrom state.lexer :=
  (h state).andThen (hacc state) (h' (state.moveTo (first state).lexer))

theorem SeesAhead.loop {test : ParseState → Bool} {step : ParseState → Reading}
    (h : SeesAhead step) (hacc : Accounts step) (limit : Nat) :
    SeesAhead (drawLoop test step · limit) := by
  induction limit with
  | zero => exact fun _ => seenFrom_nothing rfl rfl
  | succ limit ih =>
    intro state
    simp only [drawLoop]
    split
    · split
      · exact (h state).congr rfl rfl
      · exact h.andThen hacc ih state
    · exact seenFrom_nothing rfl rfl

theorem SeesAhead.chain {test : ParseState → Bool} {field : Kind → Field}
    {step : ParseState → Reading} (h : SeesAhead step) (haccounts : Accounts step)
    {lexer : Lexer} {reading : Reading} (hacc : reading.Accounted lexer)
    (hreading : reading.SeenFrom lexer) (state : ParseState) (limit : Nat) :
    (drawChain test field step state reading limit).SeenFrom lexer := by
  induction limit generalizing state reading with
  | zero => exact hreading.congr rfl rfl
  | succ limit ih =>
    let slot := field (state.moveTo reading.lexer).kind
    have hbody : (step (state.moveTo reading.lexer)).Accounted (reading.fill slot).lexer := by
      rw [fill_lexer]
      exact haccounts (state.moveTo reading.lexer)
    have hseen : (step (state.moveTo reading.lexer)).SeenFrom (reading.fill slot).lexer := by
      rw [fill_lexer]
      exact h (state.moveTo reading.lexer)
    have hwrap := (hreading.fill slot).wrap (hacc.fill slot) hseen
    simp only [drawChain]
    split
    · split
      · exact hwrap
      · exact ih ((hacc.fill slot).wrap hbody) hwrap _
    · exact hreading

/-- What reading a phrase reports and takes is seen on the way from where it starts. -/
theorem SeesAhead.phrase (hacc : ∀ rule, Accounts (drawRule rule))
    (hrules : ∀ rule, SeesAhead (drawRule rule)) (phrase : Phrase Rule) :
    SeesAhead (phrase.draw drawRule) := by
  have haccounts (phrase : Phrase Rule) : Accounts (phrase.draw drawRule) :=
    Accounts.phrase hacc phrase
  have hcurrent {state : ParseState} {reading : Reading} {report : Diagnostic}
      (hreports : reading.reports = [report]) (hs : reading.shapes = [])
      (hspan : state.current.span = report.span) : reading.SeenFrom state.lexer :=
    seenFrom_single hreports hs (Lexer.meets_current _) hspan
  have hfail (state : ParseState) (message : String) :
      (failing state (state.complaint message)).SeenFrom state.lexer := by
    refine hcurrent rfl rfl ?_
    unfold complaint
    split <;> rfl
  induction phrase with
  | take field => exact fun state => seenFrom_taken state field
  | expect kind field =>
    intro state
    simp only [draw]
    split
    · exact seenFrom_taken state field
    · exact hfail state _
  | close kind =>
    intro state
    simp only [draw]
    split
    · exact seenFrom_taken state none
    · exact hcurrent rfl rfl rfl
  | missing what => exact fun state => hfail state _
  | refuse message => exact fun state => hfail state _
  | seq first second ih ih' => exact ih.andThen (haccounts first) ih'
  | both first second ih ih' =>
    intro state
    simp only [draw]
    split
    · exact ih state
    · exact ih.andThen (haccounts first) ih' state
  | branch test yes no ih ih' =>
    intro state
    simp only [draw]
    split
    · exact ih state
    · exact ih' state
  | loop test body ih => exact fun state => ih.loop (haccounts body) _ state
  | node body ih => exact fun state => (ih state).close
  | slot field body ih => exact fun state => (ih state).fill _
  | chain head test field body ih ih' =>
    intro state
    simp only [draw]
    split
    · exact ih'.chain (haccounts body) (haccounts head state) (ih state) _ _
    · exact (ih state).congr rfl rfl
  | look probe yes no _ ih ih' =>
    intro state
    simp only [draw]
    split
    · exact (ih state).congr rfl rfl
    · exact (ih' state).congr rfl rfl
  | attempt body yes no ih ih' ih'' =>
    intro state
    simp only [draw]
    split
    · exact ih.andThen (haccounts body) ih' state
    · exact (ih'' state).congr rfl rfl
  | blame shape reading _ _ =>
    intro state
    obtain ⟨tokens, hreads, -⟩ := (haccounts shape state).reads
    exact seenFrom_single rfl rfl (hreads.meets (Lexer.meets_current _)) rfl
  | recover element ih =>
    intro state
    simp only [draw]
    split
    · exact (ih state).congr rfl rfl
    · exact (ih state).skipped
  | absorb body ih => exact fun state => (ih state).congr rfl rfl
  | nested body ih =>
    intro state
    simp only [draw]
    split
    · exact hcurrent rfl rfl rfl
    · exact ih { state with depth := state.depth + 1 }
  | call rule => exact hrules rule
  | _ => exact fun state => seenFrom_nothing rfl rfl

theorem seesAhead_drawRule (grammar : Rule → Phrase Rule) (budget : Nat) (rule : Rule) :
    SeesAhead (Phrase.drawRule grammar budget rule) := by
  induction budget generalizing rule with
  | zero => exact fun _ => seenFrom_nothing rfl rfl
  | succ budget ih => exact SeesAhead.phrase (accounts_drawRule grammar budget) ih (grammar rule)

end Phrase

end ScriptTree

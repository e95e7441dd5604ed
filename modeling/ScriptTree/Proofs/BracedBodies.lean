import ScriptTree.Proofs.BoundedRecursion
import ScriptTree.Proofs.Parser.Opening
import ScriptTree.Proofs.Parser.Roaming

/-!
Bodies are entered through their brace. Where the opening brace of a production is missing, the
production takes no more tokens. Most productions make sure of it themselves, and a block of
statements or of default settings is started at its brace only. A choice between labels does not:
its body is read without a brace, up to the end of the block around it.
-/

namespace ScriptTree

namespace Grammar

open Phrase ParseState

inductive Braced where
  | members (kind : Kind)
  | enumeration
  | states
  | settings
  | block
  | choice
  deriving DecidableEq, Repr, Inhabited

namespace Braced

def clause : Braced → Clause
  | .members kind => bracedBody kind
  | .enumeration => enumDefinition
  | .states => statesBlock
  | .settings => defaultBlock
  | .block => compound
  | .choice => switchStatement

def head : Braced → List Clause
  | .members _ | .block => []
  | .enumeration => [token, name .name, when (.sees .colon) (.seq token typeSpec)]
  | .states =>
    [token, when (.sees .leftParen)
      (inSlot .scope (nodeOf .statesScope [nameList "expected a scope name" .name]))]
  | .settings => [token]
  | .choice => [token, expect .leftParen, expressionIn .value, expect .rightParen]

def body : Braced → List Clause
  | .members _ =>
    [.nested (.both (expect .leftBrace) (.seq (bodyItems (.call .member)) (.close .rightBrace)))]
  | .enumeration =>
    [inSlot .body (nodeOf .enumBody
      [.both (expect .leftBrace) (.seq (bodyItems enumerator) (.close .rightBrace))]),
     eat .semicolon]
  | .states => [.both (expect .leftBrace) (.seq (bodyItems stateItem) (.close .rightBrace))]
  | .settings => [expect .leftBrace, bodyItems defaultItem, .close .rightBrace]
  | .block => [expect .leftBrace, bodyItems (.call .statement), .close .rightBrace]
  | .choice =>
    [inSlot .body (nodeOf .switchBody
      [expect .leftBrace, bodyItems (.call .statement), .close .rightBrace])]

def kind : Braced → Kind
  | .members kind => kind
  | .enumeration => .enumDefinition
  | .states => .statesBlock
  | .settings => .defaultBlock
  | .block => .compoundStatement
  | .choice => .switchStatement

/-- A production is a node of what it reads in front of its brace and from there on. -/
theorem clause_eq (production : Braced) :
    production.clause = nodeOf production.kind (production.head ++ production.body) ∨
      production.clause =
        inSlot .body (nodeOf production.kind (production.head ++ production.body)) := by
  cases production with
  | members kind => exact Or.inr rfl
  | _ => exact Or.inl rfl

def atBrace (production : Braced) (runRule : Rule → ParseState → Outcome × ParseState)
    (state : ParseState) : ParseState :=
  production.head.foldl (fun state part => (part.run runRule state).2) state.openNode

/-- Where the brace of a production is missing, the production takes no token, but for the semicolon
that may follow an enumeration. -/
def Refrains (production : Braced) (runRule : Rule → ParseState → Outcome × ParseState)
    (state : ParseState) : Prop :=
  let brace := production.atBrace runRule state
  let last := (production.clause.run runRule state).2
  brace.kind ≠ .leftBrace → last.lexer = brace.lexer ∨
    production = .enumeration ∧ brace.kind = .semicolon ∧ last.lexer = brace.lexer.advance

end Braced

variable {runRule : Rule → ParseState → Outcome × ParseState} {state : ParseState}

theorem lexer_fail (state : ParseState) (message : String) :
    (state.fail message).lexer = state.lexer := by
  rw [fail]
  split <;> rfl

theorem lexer_endNode (state : ParseState) (mark : Nat) (outcome : Outcome) :
    (state.endNode mark outcome).2.lexer = state.lexer := by
  cases outcome <;> rfl

theorem lexer_setField (state : ParseState) (outcome : Outcome) (field : Field) :
    (state.setField outcome field).lexer = state.lexer := by
  cases outcome <;> rfl

/-- Phrases one after the other, run one after the other. -/
theorem run_steps_append (xs : List Clause) {ys : List Clause} (hne : ys ≠ [])
    (state : ParseState) :
    (steps (xs ++ ys)).run runRule state =
      (steps ys).run runRule (xs.foldl (fun state part => (part.run runRule state).2) state) := by
  induction xs generalizing state with
  | nil => rfl
  | cons first rest ih =>
    have hsteps : steps (first :: rest ++ ys) = .seq first (steps (rest ++ ys)) := by
      cases hrest : rest ++ ys with
      | nil => exact absurd (List.append_eq_nil_iff.mp hrest).2 hne
      | cons second more =>
        rw [List.cons_append, hrest]
        rfl
    rw [hsteps, run, ih, List.foldl_cons]

/-- A node leaves the lexer where its parts leave it. -/
theorem lexer_run_nodeOf (kind : Kind) (parts : List Clause) (state : ParseState) :
    ((nodeOf kind parts).run runRule state).2.lexer =
      (parts.foldl (fun state part => (part.run runRule state).2) state.openNode).lexer := by
  simp only [nodeOf, run, lexer_endNode, run_steps_append parts (List.cons_ne_nil _ _), steps]

theorem lexer_run_inSlot (field : Field) (body : Clause) (state : ParseState) :
    ((inSlot field body).run runRule state).2.lexer = (body.run runRule state).2.lexer := by
  simp only [inSlot, run, lexer_setField]

/-- A production leaves the lexer where what it reads from its brace on leaves it. -/
theorem Braced.lexer_run_clause (production : Braced)
    (runRule : Rule → ParseState → Outcome × ParseState) (state : ParseState) :
    (production.clause.run runRule state).2.lexer =
      (production.body.foldl (fun state part => (part.run runRule state).2)
        (production.atBrace runRule state)).lexer := by
  rcases production.clause_eq with hclause | hclause
  · rw [hclause, lexer_run_nodeOf, List.foldl_append]
    rfl
  · rw [hclause, lexer_run_inSlot, lexer_run_nodeOf, List.foldl_append]
    rfl

/-- A phrase that is read behind a required brace only is not read without one. -/
theorem lexer_run_guarded (rest : Clause) (h : state.kind ≠ .leftBrace) :
    ((Phrase.both (expect .leftBrace) rest).run runRule state).2.lexer = state.lexer := by
  simp only [expect, run, if_neg h, lexer_fail]

theorem lexer_run_nested_guarded (rest : Clause) (h : state.kind ≠ .leftBrace) :
    ((Phrase.nested (.both (expect .leftBrace) rest)).run runRule state).2.lexer = state.lexer := by
  rw [run]
  split
  · rfl
  · exact lexer_run_guarded rest h

/-- A semicolon is taken if there is one. -/
theorem lexer_run_eat (state : ParseState) :
    ((eat .semicolon).run runRule state).2.lexer =
      if state.kind = .semicolon then state.lexer.advance else state.lexer := by
  by_cases hkind : state.kind = .semicolon
  · simp [eat, when, token, run, Test.holds, Test.sees, Lexer.ahead, ParseState.take, push,
      hkind, show state.lexer.current.kind = .semicolon from hkind]
  · have hne : Kind.semicolon ≠ state.lexer.current.kind := Ne.symm hkind
    simp [eat, when, run, Test.holds, Test.sees, Lexer.ahead, hkind, hne]

/-- The productions that make sure of their brace themselves. -/
theorem Braced.refrains_of_guarded {production : Braced}
    (h : production ≠ .settings ∧ production ≠ .block ∧ production ≠ .choice) (state : ParseState) :
    production.Refrains runRule state := by
  intro hbrace
  have hlast := production.lexer_run_clause runRule state
  generalize production.atBrace runRule state = brace at hbrace hlast ⊢
  cases production with
  | members kind =>
    exact Or.inl (hlast.trans (lexer_run_nested_guarded _ hbrace))
  | states => exact Or.inl (hlast.trans (lexer_run_guarded _ hbrace))
  | enumeration =>
    have hbody : ((inSlot .body (nodeOf .enumBody
        [.both (expect .leftBrace) (.seq (bodyItems enumerator) (.close .rightBrace))])).run
          runRule brace).2.lexer = brace.lexer := by
      rw [lexer_run_inSlot, lexer_run_nodeOf]
      exact lexer_run_guarded _ hbrace
    simp only [body, List.foldl_cons, List.foldl_nil, lexer_run_eat, ParseState.kind, current,
      hbody] at hlast
    split at hlast
    · next hkind => exact Or.inr ⟨rfl, hkind, hlast⟩
    · exact Or.inl hlast
  | settings => exact absurd rfl h.1
  | block => exact absurd rfl h.2.1
  | choice => exact absurd rfl h.2.2

/-- Where the rules of the grammar are started. Blocks of statements are started at their brace. -/
def bodyEntry : Rule → KindSet
  | .compound => .single .leftBrace
  | _ => .full

/-- The only body that is read whether its brace is there or not is that of a choice. -/
theorem opens_grammar (rule : Rule) :
    (grammar rule).opens bodyEntry (.single .switchBody) (bodyEntry rule) .full = true := by
  cases rule with
  | expression least => cases least <;> decide +kernel
  | _ => decide +kernel

-- A block is opened if its rule is started at a brace.
example : (grammar .compound).opens bodyEntry (.single .switchBody) (.single .leftBrace) .full =
    true := by
  decide +kernel

theorem opens_fileItems : fileItems.opens bodyEntry (.single .switchBody) .full .full = true := by
  decide +kernel

/-- Blocks of statements and of default settings are started at their brace only. -/
theorem Braced.kind_atBrace {production : Braced}
    (h : production = .settings ∨ production = .block) {budget : Nat}
    (hopens : CallFrame.Opens bodyEntry (.single .switchBody) ⟨budget, production.clause, state⟩) :
    (production.atBrace (Phrase.runRule grammar budget) state).kind = .leftBrace := by
  rcases h with rfl | rfl
  · have hnode := hopens.of_mem_starts opens_grammar (List.mem_singleton_self _)
    have hbody := hnode.of_mem_starts opens_grammar (List.mem_cons_of_mem _ List.mem_cons_self)
    exact hbody.kind_eq rfl (by decide)
  · have hnode := hopens.of_mem_starts opens_grammar (List.mem_singleton_self _)
    exact hnode.kind_eq rfl (by decide)

variable {text : String}

theorem fulfils_statement : fulfils (.recover (.call .statement)) 1 .any
    ⟨unfinished, { Exits.nowhere with done := some moved }⟩ = true := by
  decide +kernel

/-- The elements of a body are read where neither a closing brace nor the end of the text stands. -/
theorem holds_bodyItems (state : ParseState) :
    Test.holds state (.not (.seesAny [.rightBrace, .eof])) = true ↔
      state.kind ≠ .rightBrace ∧ state.kind ≠ .eof := by
  rw [Test.holds, Test.seesAny, Test.holds, Bool.not_eq_true', Bool.eq_false_iff, ne_eq,
    KindSet.contains_ofList]
  simp [Lexer.ahead, kind, current]

theorem run_bodyItems_of_stop (item : Clause) (h : state.kind = .rightBrace ∨ state.kind = .eof) :
    ((bodyItems item).run runRule state).2 = state := by
  have htest : ¬ Test.holds state (.not (.seesAny [.rightBrace, .eof])) = true := by
    rw [holds_bodyItems]
    rcases h with h | h <;> simp [h]
  simp only [bodyItems, run, rounds, loopWhile, if_neg htest]

/-- A repetition of statements takes a token, unless a closing brace or the end of the text stands
where it starts. -/
theorem statements_advance (hreached : state.lexer.Reached text)
    (hsize : state.size = text.utf8ByteSize) {budget : Nat}
    (hbudget : 8 * (state.limit - state.depth) + 1 ≤ budget) (hbrace : state.kind ≠ .rightBrace)
    (heof : state.kind ≠ .eof) :
    state.lexer.start.offset < ((bodyItems (.call .statement)).run
      (Phrase.runRule grammar budget) state).2.lexer.start.offset := by
  have hcovers := covers_of_fulfils fulfils_statement hreached hsize heof hbudget
  obtain ⟨after, tokens, hrun, -, hreads, -, -, hlt, -⟩ := run_recover_of_covers hreached hcovers
  have hafter := hreached.reads hreads
  have hstep := Wanders.run (wanders_runRule grammar budget) (Phrase.recover (.call Rule.statement))
  rw [bodyItems, run, rounds, loopWhile_succ, if_pos ((holds_bodyItems state).mpr ⟨hbrace, heof⟩),
    hrun, if_neg (by simp)]
  exact Nat.lt_of_lt_of_le hlt ((hstep.loopWhile _).offset_le hafter.placed)

/-- Phrases one after the other read on, and stay at their level. -/
theorem onward_foldl (budget : Nat) (parts : List Clause) (state : ParseState) :
    let last := parts.foldl (fun state part => (part.run (Phrase.runRule grammar budget) state).2)
      state
    state.Onward last ∧ last.level = state.level := by
  induction parts generalizing state with
  | nil => exact ⟨.refl _, rfl⟩
  | cons part rest ih =>
    have hpart := Wanders.run (wanders_runRule grammar budget) part state
    have hlevel := Stays.run (stays_runRule grammar budget) part state
    obtain ⟨hrest, hlevel'⟩ := ih (part.run (Phrase.runRule grammar budget) state).2
    exact ⟨hpart.trans hrest, hlevel'.trans hlevel⟩

def choiceBody : List Clause :=
  [expect .leftBrace, bodyItems (.call .statement), .close .rightBrace]

/-- The body of a choice is read without its brace, unless the text ends. -/
theorem choiceBody_advances (hreached : state.lexer.Reached text)
    (hsize : state.size = text.utf8ByteSize) {budget : Nat}
    (hbudget : 8 * (state.limit - state.depth) + 1 ≤ budget) (hbrace : state.kind ≠ .leftBrace) :
    let last := choiceBody.foldl
      (fun state part => (part.run (Phrase.runRule grammar budget) state).2) state
    (state.kind = .eof → last.lexer = state.lexer) ∧
      (state.kind ≠ .eof → state.lexer.start.offset < last.lexer.start.offset) := by
  let missed := state.fail (state.missing Kind.leftBrace.describe)
  let items := ((bodyItems (.call .statement)).run (Phrase.runRule grammar budget) missed).2
  have hmissed : missed.lexer = state.lexer := lexer_fail _ _
  have hkind : missed.kind = state.kind := congrArg (·.current.kind) hmissed
  have hlast : choiceBody.foldl
      (fun state part => (part.run (Phrase.runRule grammar budget) state).2) state =
        ((Phrase.close .rightBrace).run (Phrase.runRule grammar budget) items).2 := by
    simp only [choiceBody, List.foldl_cons, List.foldl_nil, expect, run, if_neg hbrace, items,
      missed]
  rw [hlast]
  constructor
  · intro heof
    have hitems : items = missed := run_bodyItems_of_stop _ (Or.inr (hkind.trans heof))
    rw [hitems, run, if_neg (by rw [hkind, heof]; decide)]
    exact hmissed
  · intro heof
    have hwanders := Wanders.run (wanders_runRule grammar budget)
    have hitems := hwanders (bodyItems (.call .statement)) missed
    rw [← hmissed] at hreached ⊢
    by_cases hright : state.kind = .rightBrace
    · -- the closing brace of the block around the choice is taken
      have hstop : items = missed := run_bodyItems_of_stop _ (Or.inl (hkind.trans hright))
      have hne : missed.kind ≠ .eof := hkind ▸ heof
      rw [hstop, run, if_pos (hkind.trans hright), ParseState.take, if_neg hne]
      exact hreached.placed.offset_lt hne
    · have hlevel : missed.level = state.level := level_fail _ _
      obtain ⟨hdepth, hlimit⟩ := Prod.mk.inj hlevel
      have hsize' : missed.size = text.utf8ByteSize :=
        (Onward.fail state (state.missing Kind.leftBrace.describe)).size.trans hsize
      have hlt : missed.lexer.start.offset < items.lexer.start.offset :=
        statements_advance hreached hsize' (by rwa [hdepth, hlimit]) (hkind ▸ hright) (hkind ▸ heof)
      have hclose := hwanders (.close .rightBrace) items
      exact Nat.lt_of_lt_of_le hlt (hclose.offset_le (hitems.reached hreached).placed)

/-- A choice whose brace is missing goes on all the same, unless the text ends. -/
theorem choice_refrains_iff (hreached : state.lexer.Reached text)
    (hsize : state.size = text.utf8ByteSize) {budget : Nat}
    (hbudget : 8 * (state.limit - state.depth) + 1 ≤ budget) :
    let brace := Braced.choice.atBrace (Phrase.runRule grammar budget) state
    Braced.choice.Refrains (Phrase.runRule grammar budget) state ↔
      brace.kind = .leftBrace ∨ brace.kind = .eof := by
  intro brace
  have hlast : (Braced.choice.clause.run (Phrase.runRule grammar budget) state).2.lexer =
      (choiceBody.foldl (fun state part => (part.run (Phrase.runRule grammar budget) state).2)
        brace.openNode).lexer := by
    rw [Braced.lexer_run_clause]
    simp only [Braced.body, List.foldl_cons, List.foldl_nil, lexer_run_inSlot, lexer_run_nodeOf]
    rfl
  obtain ⟨honward, hlevel⟩ := onward_foldl budget Braced.choice.head state.openNode
  obtain ⟨hdepth, hlimit⟩ := Prod.mk.inj hlevel
  have hbrace : brace.openNode.lexer.Reached text := honward.reached hreached
  have hsize' : brace.openNode.size = text.utf8ByteSize := honward.size.trans hsize
  have hbudget' : 8 * (brace.openNode.limit - brace.openNode.depth) + 1 ≤ budget := by
    rwa [show brace.openNode.depth = state.depth from hdepth,
      show brace.openNode.limit = state.limit from hlimit]
  by_cases hkind : brace.kind = .leftBrace
  · exact ⟨fun _ => Or.inl hkind, fun _ hne => absurd hkind hne⟩
  · obtain ⟨hstill, hmoves⟩ := choiceBody_advances hbrace hsize' hbudget' hkind
    rw [← hlast] at hstill hmoves
    constructor
    · intro hrefrains
      refine Or.inr (by_contra fun heof => ?_)
      have hlt := hmoves heof
      rcases hrefrains hkind with hlexer | ⟨hproduction, -⟩
      · rw [hlexer] at hlt
        exact Nat.lt_irrefl _ hlt
      · cases hproduction
    · rintro (hleft | heof)
      · exact absurd hleft hkind
      · exact fun _ => Or.inl (hstill heof)

variable {limit : Nat} {frames : List (CallFrame Rule)} {frame : CallFrame Rule}

/-- What is known of a phrase that is in progress while a text is read. -/
theorem InProgress.sound (h : InProgress (ruleBudget limit) text limit frames)
    (hmem : frame ∈ frames) :
    CallFrame.Opens bodyEntry (.single .switchBody) frame ∧ frame.state.lexer.Reached text ∧
      frame.state.size = text.utf8ByteSize ∧ ruleLoads.reserve frame ≤ frame.budget := by
  obtain ⟨more, rfl⟩ := h.exists_cons
  have hkeeps : (nested fileItems).keepsLoad isCall ruleLoads.calls ruleLoads.bound = true := by
    decide
  obtain ⟨hfile, hreserve⟩ := holds_fileFrame hkeeps (ruleBudget limit) text limit
  have honward := CallFrame.onward_of_chain h.2 frame hmem
  exact ⟨CallFrame.Opens.of_chain (.anywhere opens_fileItems) opens_grammar h.2 frame hmem,
    honward.reached (Lexer.reached_ofText text), honward.size,
    Loads.affords_of_chain hfile hreserve h.2 frame hmem⟩

/-- While a text is read, no production takes a token where its brace is missing, but for the
semicolon that may follow an enumeration, and but for choices: these take tokens unless the text
ends there. -/
theorem refrains_iff (h : InProgress (ruleBudget limit) text limit frames) (hmem : frame ∈ frames)
    {production : Braced} (hphrase : frame.phrase = production.clause) :
    production.Refrains (Phrase.runRule grammar frame.budget) frame.state ↔
      (production = .choice →
        let brace := production.atBrace (Phrase.runRule grammar frame.budget) frame.state
        brace.kind = .leftBrace ∨ brace.kind = .eof) := by
  obtain ⟨hopens, hreached, hsize, hbudget⟩ := h.sound hmem
  obtain ⟨budget, phrase, state⟩ := frame
  obtain rfl : phrase = production.clause := hphrase
  by_cases hchoice : production = .choice
  · subst hchoice
    have hload : (Braced.choice.clause.load isCall ruleLoads.calls) = 1 := by decide
    rw [Loads.reserve, hload, Nat.add_comm] at hbudget
    have hiff := choice_refrains_iff hreached hsize hbudget
    exact ⟨fun h _ => hiff.mp h, fun h => hiff.mpr (h rfl)⟩
  · refine iff_of_true ?_ fun h => absurd h hchoice
    by_cases hopen : production = .settings ∨ production = .block
    · exact fun hbrace => absurd (Braced.kind_atBrace hopen hopens) hbrace
    · exact Braced.refrains_of_guarded ⟨fun h => hopen (Or.inl h), fun h => hopen (Or.inr h),
        hchoice⟩ state

def framesAlong (text : String) (limit : Nat) (path : List Nat) : List (CallFrame Rule) :=
  (fileFrame (ruleBudget limit) text limit).descend grammar path

theorem inProgress_framesAlong (text : String) (limit : Nat) (path : List Nat) :
    InProgress (ruleBudget limit) text limit (framesAlong text limit path) :=
  ⟨CallFrame.head?_descend _ _ _, CallFrame.isChain_descend _ _ _⟩

def enumerationPath : List Nat :=
  [0, 0, 0, 0, 0, 0, 0]

theorem enumeration_refrains : ∃ frame ∈ framesAlong "enum E;" 1 enumerationPath,
    InProgress (ruleBudget 1) "enum E;" 1 (framesAlong "enum E;" 1 enumerationPath) ∧
      frame.phrase = Braced.enumeration.clause ∧
      Braced.enumeration.Refrains (Phrase.runRule grammar frame.budget) frame.state := by
  have hprogress := inProgress_framesAlong "enum E;" 1 enumerationPath
  have hphrase : (framesAlong "enum E;" 1 enumerationPath).getLast?.map (·.phrase) =
      some Braced.enumeration.clause := by
    decide +kernel
  obtain ⟨frame, hlast, hphrase⟩ := Option.map_eq_some_iff.mp hphrase
  have hmem := List.mem_of_getLast? hlast
  exact ⟨frame, hmem, hprogress, hphrase, (refrains_iff hprogress hmem hphrase).mpr nofun⟩

def bareChoice : String :=
  "void f(){switch(x)y;}"

def bareChoicePath : List Nat :=
  [0, 0, 0, 0, 0, 0, 0, 0, 0, 0, 0, 0, 0, 1, 1, 0, 1, 1, 1, 1, 1, 0, 0, 0, 0, 1, 0, 0, 0, 0, 0, 0,
   0, 0, 0]

/-- Not every production refrains from its body where its brace is missing: the choice takes the
statement behind it and the closing brace of the block around it. -/
theorem choice_enters_without_brace : ¬ ∀ (text : String) (limit : Nat)
    (frames : List (CallFrame Rule)), InProgress (ruleBudget limit) text limit frames →
    ∀ frame ∈ frames, ∀ production : Braced, frame.phrase = production.clause →
      production.Refrains (Phrase.runRule grammar frame.budget) frame.state := by
  intro hall
  have hprogress := inProgress_framesAlong bareChoice 4 bareChoicePath
  have hphrase : (framesAlong bareChoice 4 bareChoicePath).getLast?.map (·.phrase) =
      some Braced.choice.clause := by
    decide +kernel
  have hbrace : (framesAlong bareChoice 4 bareChoicePath).getLast?.map (fun frame =>
      let brace := Braced.choice.atBrace (Phrase.runRule grammar frame.budget) frame.state
      let last := (Braced.choice.clause.run (Phrase.runRule grammar frame.budget) frame.state).2
      (brace.kind, brace.lexer.start.offset, last.lexer.start.offset)) = some (.name, 18, 21) := by
    decide +kernel
  obtain ⟨frame, hlast, hphrase⟩ := Option.map_eq_some_iff.mp hphrase
  rw [hlast] at hbrace
  simp only [Option.map_some, Option.some.injEq, Prod.mk.injEq] at hbrace
  obtain ⟨hkind, hstart, hstop⟩ := hbrace
  have hrefrains := hall _ _ _ hprogress frame (List.mem_of_getLast? hlast) .choice hphrase
  rcases hrefrains (by rw [hkind]; decide) with hlexer | ⟨hproduction, -⟩
  · rw [hlexer, hstart] at hstop
    cases hstop
  · cases hproduction

end Grammar

end ScriptTree

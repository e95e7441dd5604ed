import ScriptTree.Proofs.Grammar.Filled
import ScriptTree.Proofs.Grammar.Types

/-!
Probes foretell what is read behind them. Where the probe for a cast fits, the cast reads the same
type and the closing parenthesis, and where the probe for the shape of a call fits, a function reads
the same types, name and opening parenthesis: the same tokens each time, with nothing to report.
-/

namespace ScriptTree

namespace Grammar

open ParseState Phrase

def probed (budget : Nat) (probe : Clause) (state : ParseState) : ParseState :=
  (read budget probe state).2

/-- Whether a probe fits here without failure. -/
def foresees (budget : Nat) (probe : Clause) (state : ParseState) : Bool :=
  (probed budget probe state).isClean state.checkpoint (read budget probe state).1

def resumed (budget : Nat) (probe : Clause) (state : ParseState) : ParseState :=
  (probed budget probe state).rewind state.checkpoint

section

variable {budget : Nat} {state : ParseState}

theorem resumed_eq (budget : Nat) (probe : Clause) (state : ParseState) :
    resumed budget probe state = state.noting (probed budget probe state).misused :=
  (frames_read budget probe state).1.rewind

theorem bare_resumed (budget : Nat) (probe : Clause) (state : ParseState) :
    (resumed budget probe state).bare = state.bare := by
  rw [resumed_eq]
  rfl

theorem read_look {probe : Clause} (h : foresees budget probe state = true) (yes no : Clause) :
    read budget (.look probe yes no) state = read budget yes (resumed budget probe state) :=
  if_pos h

theorem fits_of_foresees {probe : Clause} (h : foresees budget probe state = true) :
    (read budget probe state).1 ≠ .failed ∧
      (probed budget probe state).failures = state.failures := by
  simp only [foresees, isClean, Bool.and_eq_true, beq_iff_eq] at h
  refine ⟨fun hfailed => ?_, h.2⟩
  rw [hfailed] at h
  exact Bool.noConfusion h.1

/-- The probe for a cast reads a type in front of a closing parenthesis. -/
theorem read_castHead (h : (read budget castHead state).1 ≠ .failed) :
    (read budget (.call .type) (read budget token state).2).1 ≠ .failed ∧
      (read budget (.call .type) (read budget token state).2).2 = probed budget castHead state ∧
      (probed budget castHead state).kind = .rightParen := by
  -- whatever the type starts with, what is asked for behind it is a closing parenthesis and more
  obtain ⟨more, hmore⟩ : ∃ more, read budget castHead state =
      read budget (.both (.call .type) (check (.and (.sees .rightParen) more)))
        (read budget token state).2 := by
    by_cases hclass : (Test.sees .classKw).holds (read budget token state).2 = true
    · exact ⟨_, read_branch_of_holds hclass _ _⟩
    by_cases hbuiltin : (Test.and (.word builtinTypes) (.next .rightParen)).holds
        (read budget token state).2 = true
    · exact ⟨_, (read_branch_of_not hclass _ _).trans (read_branch_of_holds hbuiltin _ _)⟩
    · exact ⟨_, (read_branch_of_not hclass _ _).trans (read_branch_of_not hbuiltin _ _)⟩
  rw [probed]
  rw [hmore] at h ⊢
  obtain ⟨htype, hboth⟩ := read_both h
  rw [hboth] at h ⊢
  obtain ⟨htest, hstate⟩ := read_check h
  have hcloses := (Bool.and_eq_true_iff.mp htest).1
  change (Test.sees .rightParen).holds _ = true at hcloses
  rw [holds_sees, beq_iff_eq] at hcloses
  rw [hstate]
  exact ⟨htype, rfl, hcloses.symm⟩

/-- The probe for the shape of a call reads types and a name in front of an opening
parenthesis. -/
theorem read_callShape (h : (read budget callShape state).1 ≠ .failed) :
    (read budget leadingTypes state).2.kind = .name ∧
      probed budget callShape state = (read budget leadingTypes state).2.take none ∧
      (probed budget callShape state).kind = .leftParen := by
  have hshape : read budget callShape state =
      read budget (.branch (.sees .name) (.seq token (check (.sees .leftParen))) .reject)
        (read budget leadingTypes state).2 := rfl
  rw [probed]
  rw [hshape] at h ⊢
  by_cases hname : (Test.sees .name).holds (read budget leadingTypes state).2 = true
  · rw [read_branch_of_holds hname] at h ⊢
    have hcheck : (read budget (check (.sees .leftParen))
        ((read budget leadingTypes state).2.take none)).1 ≠ .failed := h
    obtain ⟨hopens, hstate⟩ := read_check hcheck
    rw [holds_sees, beq_iff_eq] at hname hopens
    have htaken : (read budget (.seq token (check (.sees .leftParen)))
        (read budget leadingTypes state).2).2 =
        (read budget leadingTypes state).2.take none := hstate
    rw [htaken]
    exact ⟨hname.symm, rfl, hopens.symm⟩
  · rw [read_branch_of_not hname] at h
    exact absurd rfl h

end

def castKind (type : Kind) : Kind :=
  if type = .classType then .classCastExpr else .castExpr

def castEnd (kind : Kind) : Clause :=
  .seq (inSlot .operand (.nested (.call .unary))) (.choose kind)

def pastTwo : Clause → Clause
  | .seq _ (.seq _ rest) => rest
  | clause => clause

def parametersEnd : Clause :=
  .seq
    (pastTwo (delimited .leftParen .rightParen "expected a parameter" parameterFirst parameter))
    (.choose .parameterList)

/-- A cast reads what its probe has read. -/
structure CastAhead (budget : Nat) (state : ParseState) (tokens : List Token) (kind : Kind)
    (typed : ParseState) : Prop where
  /-- The probe reads the tokens, of which those behind the first one are a type of the kind. -/
  probe : state.Takes tokens (probed budget castHead state) ∧ ∃ mark,
    read budget (.seq token (.call .type)) state = (.node mark kind, probed budget castHead state)
  /-- The parse goes on from the state in front of the probe. -/
  back : resumed budget castHead state =
    state.noting (probed budget castHead state).misused
  /-- Behind the probe, the cast reads the same tokens, and a type of the same kind. -/
  type : (resumed budget castHead state).Takes tokens typed ∧ ∃ mark,
    read budget (.seq token typeSpec) (resumed budget castHead state).openNode =
      (.node mark kind, typed)
  lexer : typed.lexer = (probed budget castHead state).lexer
  /-- It finds the closing parenthesis. -/
  closed : typed.kind = .rightParen ∧
    read budget (expect .rightParen) typed = (.done, typed.take none) ∧
    (resumed budget castHead state).Takes (tokens ++ [typed.current]) (typed.take none)
  /-- Wherever there is a choice between a cast and something else, this is how a cast is read, and
  its kind is told from that of the type. -/
  rest : ∀ other, read budget (.look castHead cast other) state =
    (read budget (castEnd (castKind kind)) (typed.take none)).2.endNode state.mark
      (.chose (castKind kind))

/-- A function reads what the probe for the shape of a call has read. -/
structure CallAhead (budget : Nat) (state : ParseState) (tokens : List Token)
    (named : ParseState) : Prop where
  probe : state.Takes tokens (probed budget callShape state)
  back : resumed budget callShape state =
    state.noting (probed budget callShape state).misused
  /-- Behind the probe, a function reads the same tokens as its types and its name. -/
  head : (resumed budget callShape state).Takes tokens named ∧ ∃ mark,
    read budget (.seq leadingTypes (name .name)) (resumed budget callShape state) =
      (.node mark .ident, named)
  lexer : named.lexer = (probed budget callShape state).lexer
  /-- It finds the opening parenthesis. -/
  opened : named.kind = .leftParen ∧
    (resumed budget callShape state).Takes (tokens ++ [named.current])
      (named.openNode.take none)
  /-- Wherever there is a choice between a function and something else, this is how a function is
  read. -/
  rest : (∀ function other, read budget (.look callShape function other) state =
      read budget function (resumed budget callShape state)) ∧
    read budget functionRest (resumed budget callShape state) =
      read budget (pastTwo functionTail) (read budget parameterList named).2 ∧
    read budget parameterList named =
      let (outcome, after) := read budget parametersEnd (named.openNode.take none)
      let (outcome, after) := after.endNode named.mark outcome
      (outcome, after.setField outcome .parameters)

section

variable {budget : Nat} {state : ParseState}

theorem mark_resumed (budget : Nat) (probe : Clause) (state : ParseState) :
    (resumed budget probe state).mark = state.mark := by
  rw [resumed_eq]
  rfl

/-- A cast behind its opening parenthesis: its kind is told from that of its type. -/
theorem read_cast {typed : ParseState} {mark : Nat} {kind : Kind}
    (htyped : read budget typeSpec (read budget token state.openNode).2 = (.node mark kind, typed))
    (hclass : kind = .classType ↔ (read budget token state.openNode).2.kind = .classKw)
    (hcloses : typed.kind = .rightParen) :
    read budget cast state = (read budget (castEnd (castKind kind)) (typed.take none)).2.endNode
      state.mark (.chose (castKind kind)) := by
  have hcast : read budget cast state =
      let (outcome, after) := read budget
        (.branch (.sees .classKw) (castTail .classCastExpr) (castTail .castExpr))
        (read budget token state.openNode).2
      after.endNode state.mark outcome := rfl
  have htail (made : Kind) : read budget (castTail made) (read budget token state.openNode).2 =
      read budget (castEnd made) (typed.take none) := by
    have hsteps : read budget (castTail made) (read budget token state.openNode).2 =
        read budget (castEnd made) (read budget (expect .rightParen)
          (read budget typeSpec (read budget token state.openNode).2).2).2 := rfl
    have hexpect : read budget (expect .rightParen) typed = (.done, typed.take none) :=
      if_pos hcloses
    rw [hsteps, htyped, hexpect]
  have hsees : (Test.sees .classKw).holds (read budget token state.openNode).2 = true ↔
      kind = .classType := by
    rw [holds_sees, beq_iff_eq, hclass, eq_comm]
  rw [hcast]
  by_cases hkind : kind = .classType
  · rw [read_branch_of_holds (hsees.mpr hkind), htail, castKind, if_pos hkind]
    rfl
  · rw [read_branch_of_not (mt hsees.mp hkind), htail, castKind, if_neg hkind]
    rfl

/-- Where the probe for a cast fits, a cast reads the same. -/
theorem exists_castAhead (h : foresees budget castHead state = true) :
    ∃ tokens kind typed, CastAhead budget state tokens kind typed := by
  obtain ⟨hfits, hfailures⟩ := fits_of_foresees h
  obtain ⟨htype, hprobed, hcloses⟩ := read_castHead hfits
  obtain ⟨mark, kind, hnode, hsolid, hclass⟩ := exists_node_type htype
  let start := resumed budget castHead state
  have hstart : start.openNode.bare = state.bare := bare_resumed budget castHead state
  have hbare := (uniform_read budget token).bare_eq hstart
  have hcurrent : start.openNode.current = state.current :=
    congrArg (fun state => state.lexer.current) hstart
  -- at the end of the text nothing is taken, and no type starts there
  have hne : state.kind ≠ .eof := by
    intro heof
    change (state.take none).kind ≠ .eof at hsolid
    rw [ParseState.take, if_pos heof] at hsolid
    exact hsolid heof
  have hopens : state.Takes [state.current] (read budget token state).2 := .take hne none
  have hopens' : start.Takes [state.current] (read budget token start.openNode).2 := by
    have hne' : start.openNode.kind ≠ .eof := by
      rwa [ParseState.kind, hcurrent]
    rw [← hcurrent]
    exact (Takes.openNode start).trans (.take hne' none)
  obtain ⟨tokens, mark', typed, htakes, htyped, htakes', hlexer⟩ := exists_typed hbare hnode
    (by rw [hprobed, hfailures, hopens.failures])
  rw [hprobed] at htakes hlexer
  have hkind : typed.kind = .rightParen := by
    rw [ParseState.kind, current, hlexer]
    exact hcloses
  have hsolid' : typed.kind ≠ .eof := by
    rw [hkind]
    decide
  have hall := hopens'.trans htakes'
  refine ⟨[state.current] ++ tokens, kind, typed,
    ⟨hopens.trans htakes, mark, Prod.ext hnode hprobed⟩, resumed_eq _ _ _, ⟨hall, mark', htyped⟩,
    hlexer, ⟨hkind, if_pos hkind, hall.trans (.take hsolid' none)⟩, fun other => ?_⟩
  have hsame : (read budget token start.openNode).2.kind = (read budget token state).2.kind :=
    congrArg (fun state => state.lexer.current.kind) hbare
  rw [read_look h, ← mark_resumed budget castHead state]
  exact read_cast htyped (by rw [hsame, hclass]) hkind

/-- Parameters are read from behind their opening parenthesis on. -/
theorem read_parameterList (h : state.kind = .leftParen) : read budget parameterList state =
    let (outcome, after) := read budget parametersEnd (state.openNode.take none)
    let (outcome, after) := after.endNode state.mark outcome
    (outcome, after.setField outcome .parameters) := by
  let parameters : Clause :=
    delimited .leftParen .rightParen "expected a parameter" parameterFirst parameter
  let inside : Clause :=
    .seq (.branch (.sees .leftParen) parameters (expect .leftParen)) (.choose .parameterList)
  have hdemand : state.openNode.demand .leftParen = state.openNode := by
    rw [ParseState.demand, show state.openNode.kind = .leftParen from h]
    exact require_true _
  have hopens : (Test.sees .leftParen).holds state.openNode = true := by
    rw [holds_sees, show state.openNode.kind = .leftParen from h, beq_self_eq_true]
  have hinside : read budget inside state.openNode =
      read budget parametersEnd (state.openNode.take none) :=
    calc read budget inside state.openNode
      _ = read budget (.choose .parameterList) (read budget parameters state.openNode).2 := by
        rw [← read_branch_of_holds hopens parameters (expect .leftParen)]
        rfl
      _ = read budget parametersEnd ((state.openNode.demand .leftParen).take none) := rfl
      _ = read budget parametersEnd (state.openNode.take none) := by rw [hdemand]
  rw [← hinside]
  rfl

/-- Where the probe for the shape of a call fits, a function reads the same. -/
theorem exists_callAhead (h : foresees budget callShape state = true) :
    ∃ tokens named, CallAhead budget state tokens named := by
  obtain ⟨hfits, hfailures⟩ := fits_of_foresees h
  obtain ⟨hname, hprobed, hopens⟩ := read_callShape hfits
  let start := resumed budget callShape state
  let typed := (read budget leadingTypes state).2
  let typed' := (read budget leadingTypes start).2
  have hstart : start.bare = state.bare := bare_resumed budget callShape state
  have huniform := uniform_read budget leadingTypes
  have hbare : typed'.bare = typed.bare := huniform.bare_eq hstart
  have hcurrent : typed'.current = typed.current :=
    congrArg (fun state => state.lexer.current) hbare
  have hne : typed.kind ≠ .eof := by
    rw [hname]
    decide
  have htaken : typed.Takes [typed.current] (probed budget callShape state) := by
    rw [hprobed]
    exact .take hne none
  have hclean : typed.failures = state.failures := htaken.failures.symm.trans hfailures
  obtain ⟨tokens, htakes, htakes'⟩ := exists_takes huniform (frames_read budget _)
    (frank_read budget rfl) hstart hclean
  have hname' : typed'.kind = .name := by
    rwa [ParseState.kind, hcurrent]
  obtain ⟨named, hnamed, hidentifier, hlexer⟩ := read_name budget hname' .name
  rw [hcurrent] at hidentifier
  have hadvance : (probed budget callShape state).lexer = typed.lexer.advance := by
    rw [hprobed, ParseState.take, if_neg hne]
    rfl
  have hsame : named.lexer = (probed budget callShape state).lexer := by
    have htyped := congrArg ParseState.lexer hbare
    rw [hlexer, hadvance]
    exact congrArg Lexer.advance htyped
  have hkind : named.kind = .leftParen := by
    rw [ParseState.kind, current, hsame]
    exact hopens
  have hhead := htakes'.trans hidentifier
  refine ⟨tokens ++ [typed.current], named, htakes.trans htaken, resumed_eq _ _ _,
    ⟨hhead, typed'.mark, hnamed⟩, hsame,
    ⟨hkind, hhead.trans ((Takes.openNode named).trans (.take ?_ none))⟩,
    fun function other => read_look h function other, ?_, ?_⟩
  · show named.kind ≠ .eof
    rw [hkind]
    decide
  · have hfunction : read budget functionRest start = read budget (pastTwo functionTail)
        (read budget parameterList (read budget (name .name) typed').2).2 := rfl
    rw [hfunction, hnamed]
  · exact read_parameterList hkind

end

section Local

open Reading

variable {drawRule : Rule → ParseState → Reading} {state : ParseState}

/-- The head of a local declaration is a type that ends in front of a name. -/
theorem draw_localHead (h : (localHead.draw drawRule state).verdict ≠ .failed) :
    let typed := (Phrase.seq typeQualifier typeSpec).draw drawRule state
    localHead.draw drawRule state = typed.andThen (stay (state.moveTo typed.lexer) .done) := by
  intro typed
  simp only [localHead, check, draw] at h ⊢
  split at h
  · next hfailed => exact absurd hfailed h
  next hfits =>
  dsimp only [andThen] at h
  split at h
  · next hname =>
    rw [if_neg hfits, if_pos hname]
    exact (andThen_assoc _ _ _).symm
  · exact absurd rfl h

/-- Where the head of a local declaration fits, the declaration reads it a second time to the same
effect as if it went on behind the first reading, within a node that began in front of it. -/
theorem localDeclaration_goesOn (h : (localHead.draw drawRule state).isClean = true) :
    localDeclaration.draw drawRule state =
      (Phrase.node (.attempt localHead
        (steps [declarators, expect .semicolon, .choose .localDeclaration]) .reject)).draw
          drawRule state := by
  have hfits : (localHead.draw drawRule state).verdict ≠ .failed := fun hfailed => by
    simp [Reading.isClean, hfailed] at h
  let rest := steps [declarators, expect .semicolon, .choose .localDeclaration]
  let typed := (Phrase.seq typeQualifier typeSpec).draw drawRule state
  have hhead := draw_localHead hfits
  rw [draw, draw, if_pos h, hhead, andThen_assoc, stay_andThen]
  exact congrArg Reading.close (andThen_assoc (typeQualifier.draw drawRule state) _
    (rest.draw drawRule (state.moveTo typed.lexer))).symm

end Local

/-- Probes foretell what is read behind them, in every state of a parse. Where the probe for a cast
fits, a cast reads the same type and finds its parenthesis, and the kind of the cast is told from
that of the type. Where the probe for the shape of a call fits, a function reads the same types and
the same name and finds the parenthesis of its parameters. There is nothing to report of them. -/
theorem probes_foretell (budget : Nat) (state : ParseState) :
    (foresees budget castHead state = true →
      ∃ tokens kind typed, CastAhead budget state tokens kind typed) ∧
    (foresees budget callShape state = true →
      ∃ tokens named, CallAhead budget state tokens named) :=
  ⟨exists_castAhead, exists_callAhead⟩

/-- A cast to a class type, and a function of two types, where two lists of arguments end
together. -/
theorem probes_foretell_arguments :
    (∃ tokens kind typed,
      CastAhead 8 (.ofText "(class<Map<int, Array<int>>>) (x)" 8) tokens kind typed) ∧
    ∃ tokens named,
      CallAhead 8 (.ofText "const int, Map<int, Array<int>> f(int a);" 8) tokens named :=
  ⟨(probes_foretell 8 _).1 (by decide +kernel), (probes_foretell 8 _).2 (by decide +kernel)⟩

end Grammar

end ScriptTree

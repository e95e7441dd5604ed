import ScriptTree.Proofs.Grammar.Contracts

/-!
The contracts of declarations. A declaration in the shape of a call is read a second and a third
time, and these readings rely on what the first one has seen. The phrase of declarations is replaced
by one that asks for it again, which reads the same and can be scanned.
-/

namespace ScriptTree

namespace Grammar

open Sight Phrase Reading

def guardedField : Clause :=
  .seq typeQualifier <| .both typeSpec <| .branch (.and (.sees .name) (.next .leftParen))
    (steps
      [callDeclarator, .loop (.sees .comma) (steps [token, .call .declarator, .done]),
       expect .semicolon])
    .reject

def guardedFunction : Clause :=
  .branch (.sees .constKw) (.absorb functionRest)
    (.branch (.peek 0 typeFirst) (.both (.nested .done) (.absorb functionRest))
      (.missing "a type"))

def guardedDeclaration : Clause :=
  .node <| .seq declarationModifiers <|
    .look callShape
      (.attempt functionRest (.choose .functionDefinition)
        (.attempt guardedField (.choose .fieldDeclaration)
          (steps
            [.blame leadingTypes functionRest, guardedFunction,
             .choose .functionDefinition])))
      (steps
        [typeQualifier, typeSpec, declarators, expect .semicolon, .choose .fieldDeclaration])

theorem fulfils_guardedDeclaration (care : Care) :
    (contracts .declaration care).all (fulfils guardedDeclaration (rank .declaration) care) =
      true := by
  cases care <;> decide +kernel

theorem holds_sees (kind : Kind) (state : ParseState) :
    (Test.sees kind).holds state = (kind == state.kind) :=
  KindSet.contains_single kind state.kind

theorem holds_next (kind : Kind) (state : ParseState) :
    (Test.next kind).holds state = (kind == state.lexer.advance.current.kind) :=
  KindSet.contains_single kind _

theorem draw_loop_of_not {drawRule : Rule → ParseState → Reading} {test : Test}
    {state : ParseState} (h : test.holds state = false) (body : Clause) :
    (loop test body).draw drawRule state = stay state .done := by
  simp [draw, ParseState.rounds, drawLoop, h]

/-- In the shape of a call, the types are followed by a name and a parenthesis. -/
theorem name_leftParen_of_callShape {drawRule : Rule → ParseState → Reading} {state : ParseState}
    (h : (callShape.draw drawRule state).isClean = true) :
    (Test.and (.sees .name) (.next .leftParen)).holds
      (state.moveTo (leadingTypes.draw drawRule state).lexer) = true := by
  generalize hl : (leadingTypes.draw drawRule state).lexer = lexer
  have hverdict :
    ((branch (.sees .name) (seq token (check (.sees .leftParen))) reject).draw drawRule
      (state.moveTo lexer)).verdict ≠ .failed := by
    simp only [Reading.isClean, Bool.and_eq_true, bne_iff_ne] at h
    rw [← hl]
    exact h.1
  rw [draw] at hverdict
  split at hverdict
  · next hn =>
    have hkind : (state.moveTo lexer).kind ≠ .eof := by
      rw [holds_sees, beq_iff_eq] at hn
      rw [← hn]
      decide
    have hcheck : ((check (.sees .leftParen)).draw drawRule
        (state.moveTo lexer.advance)).verdict ≠ .failed := by
      intro hf
      refine hverdict ?_
      show ((check (.sees .leftParen)).draw drawRule
        (state.moveTo (taken (state.moveTo lexer) none).lexer)).verdict = .failed
      rw [taken, if_neg hkind]
      exact hf
    rw [Test.holds, hn, Bool.true_and, holds_next]
    simp only [check, draw, holds_sees] at hcheck
    split at hcheck
    · next he => exact he
    · exact absurd rfl hcheck
  · exact absurd rfl hverdict

/-- Where types are followed by a name, the name is followed by a parenthesis if the whole has the
shape of a call. -/
theorem next_leftParen_of_callShape {drawRule : Rule → ParseState → Reading} {state : ParseState}
    (h : (callShape.draw drawRule state).isClean = true) {lexer : Lexer}
    (hl : (typeSpec.draw drawRule
      (state.moveTo (typeQualifier.draw drawRule state).lexer)).lexer = lexer)
    (hn : (Test.sees .name).holds (state.moveTo lexer) = true) :
    (Test.next .leftParen).holds (state.moveTo lexer) = true := by
  have hcomma : (Test.sees .comma).holds (state.moveTo lexer) = false := by
    rw [holds_sees, beq_iff_eq] at hn
    rw [holds_sees, ← hn]
    rfl
  -- No comma follows the first type, so that the types end where a field has its one type.
  have hlist : ((commaSeparated typeSpec).draw drawRule
      (state.moveTo (typeQualifier.draw drawRule state).lexer)).lexer = lexer := by
    show ((loop (.sees .comma) (steps [token, typeSpec, .done])).draw drawRule
      (state.moveTo (typeSpec.draw drawRule _).lexer)).lexer = lexer
    rw [hl, draw_loop_of_not hcomma]
    rfl
  have hleading : (leadingTypes.draw drawRule state).lexer = lexer := by
    show (fill (close (andThen ((commaSeparated typeSpec).draw drawRule
      (state.moveTo (typeQualifier.draw drawRule state).lexer)) (stay _ _))) _).lexer = lexer
    rw [fill_lexer, close_lexer]
    exact hlist
  have hboth := name_leftParen_of_callShape h
  rw [hleading, Test.holds, Bool.and_eq_true] at hboth
  exact hboth.2

section Congruence

variable {drawRule : Rule → ParseState → Reading} {state : ParseState}

theorem draw_seq_congr (first : Clause) {second second' : Clause}
    (h : second.draw drawRule (state.moveTo (first.draw drawRule state).lexer) =
      second'.draw drawRule (state.moveTo (first.draw drawRule state).lexer)) :
    (seq first second).draw drawRule state = (seq first second').draw drawRule state := by
  simp only [draw, h]

theorem draw_seq_congr_left {first first' : Clause} (second : Clause)
    (h : first.draw drawRule state = first'.draw drawRule state) :
    (seq first second).draw drawRule state = (seq first' second).draw drawRule state := by
  simp only [draw, h]

theorem draw_both_congr (first : Clause) {second second' : Clause}
    (h : second.draw drawRule (state.moveTo (first.draw drawRule state).lexer) =
      second'.draw drawRule (state.moveTo (first.draw drawRule state).lexer)) :
    (both first second).draw drawRule state = (both first second').draw drawRule state := by
  simp only [draw, h]

theorem draw_look_congr (probe no : Clause) {yes yes' : Clause}
    (h : (probe.draw drawRule state).isClean = true →
      yes.draw drawRule state = yes'.draw drawRule state) :
    (look probe yes no).draw drawRule state = (look probe yes' no).draw drawRule state := by
  simp only [draw]
  split
  · next hc => rw [h hc]
  · rfl

theorem draw_attempt_congr (yes : Clause) {body body' no no' : Clause}
    (hb : body.draw drawRule state = body'.draw drawRule state)
    (hn : no.draw drawRule state = no'.draw drawRule state) :
    (attempt body yes no).draw drawRule state = (attempt body' yes no').draw drawRule state := by
  simp only [draw, hb, hn]

end Congruence

/-- In the shape of a call, a field reads the same with the parenthesis asked for. -/
theorem draw_guardedField {drawRule : Rule → ParseState → Reading} {state : ParseState}
    (h : (callShape.draw drawRule state).isClean = true) :
    guardedField.draw drawRule state = callFieldRest.draw drawRule state := by
  have hnext := next_leftParen_of_callShape h rfl
  refine draw_seq_congr _ (draw_both_congr _ ?_)
  simp only [draw]
  congr 1
  rw [Test.holds, eq_iff_iff, Bool.and_eq_true]
  exact ⟨And.left, fun hn => ⟨hn, hnext hn⟩⟩

/-- What begins in the shape of a call begins with a type that may be read here. -/
theorem typeFirst_of_callShape {drawRule : Rule → ParseState → Reading} {budget origin : Nat}
    {state : ParseState} (hacc : ∀ rule, Accounts (drawRule rule))
    (hbook : book.Holds budget drawRule) (hs : (vague none).Stands origin 2 budget state)
    (h : (callShape.draw drawRule state).isClean = true) (hk : state.kind ≠ .constKw) :
    typeFirst.contains state.kind = true ∧ state.depth < state.limit := by
  have hfailures : (callShape.draw drawRule state).failures = 0 := by
    simp only [Reading.isClean, Bool.and_eq_true, beq_iff_eq] at h
    exact h.2
  have himpossible {sight : Sight} (hsees : sight.Sees origin state)
      (hscan : callShape.scan book .clean 2 sight = some .nowhere) : False := by
    have hc := follows_scan hacc hbook callShape hscan origin state
      ⟨hsees, hs.grounded, hs.origin_le, hs.affords⟩ fun _ => hfailures
    obtain ⟨known, hknown, _⟩ := hc.finds
    cases hv : (callShape.draw drawRule state).verdict <;> rw [hv] at hknown <;> cases hknown
  constructor
  · by_contra hnot
    have hsees : (seeing (KindSet.full.without (typeFirst.insert .constKw))).Sees origin state := by
      refine ⟨hs.sees.behind, ?_, hs.sees.next, hs.sees.after, hs.sees.room, hs.sees.label,
        hs.sees.moved⟩
      simp [seeing, KindSet.insert, KindSet.contains_union, Bool.eq_false_iff.mpr hnot,
        Ne.symm hk]
    exact himpossible hsees (by decide +kernel)
  · by_contra hnot
    have hsees : Sees { seeing (KindSet.full.without (.single .constKw)) with room := some false }
        origin state := by
      refine ⟨hs.sees.behind, ?_, hs.sees.next, hs.sees.after, ?_, hs.sees.label, hs.sees.moved⟩
      · simp [seeing, Ne.symm hk]
      · intro known hr
        obtain rfl := Option.some.inj hr
        exact decide_eq_false hnot
    exact himpossible hsees (by decide +kernel)

/-- In the shape of a call, a function reads the same with a type asked for. -/
theorem draw_guardedFunction {drawRule : Rule → ParseState → Reading} {budget origin : Nat}
    {state : ParseState} (hacc : ∀ rule, Accounts (drawRule rule))
    (hbook : book.Holds budget drawRule) (hs : (vague none).Stands origin 2 budget state)
    (h : (callShape.draw drawRule state).isClean = true) :
    guardedFunction.draw drawRule state = (absorb functionRest).draw drawRule state := by
  by_cases hk : state.kind = .constKw
  · rw [guardedFunction, draw, if_pos (by rw [holds_sees, hk]; rfl)]
  · obtain ⟨hfirst, hroom⟩ := typeFirst_of_callShape hacc hbook hs h hk
    have htest : Test.holds state (.peek 0 typeFirst) = true := hfirst
    rw [guardedFunction, draw, if_neg (by rw [holds_sees]; simpa using Ne.symm hk), draw,
      if_pos htest, draw]
    have hnested : (nested done).draw drawRule state = stay state .done := by
      rw [draw, if_neg (Nat.not_le.mpr hroom)]
      rfl
    rw [hnested, if_neg (by simp [stay])]
    exact stay_andThen state .done _

theorem Stands.anywhere {origin bound budget : Nat} {state : ParseState} {sight : Sight}
    (h : sight.Stands origin bound budget state) : (vague none).Stands origin bound budget state :=
  h.with_sight (vague_sees nofun)

/-- Asking for what the shape of a call implies changes no reading. -/
theorem draw_guardedDeclaration {drawRule : Rule → ParseState → Reading} {budget origin : Nat}
    {state : ParseState} {sight : Sight} (hacc : ∀ rule, Accounts (drawRule rule))
    (hbook : book.Holds budget drawRule) (hs : sight.Stands origin 2 budget state) :
    guardedDeclaration.draw drawRule state = declaration.draw drawRule state := by
  refine congrArg Reading.close (draw_seq_congr _ (draw_look_congr _ _ fun hc => ?_))
  have hstands : (vague none).Stands origin 2 budget
      (state.moveTo (declarationModifiers.draw drawRule state).lexer) :=
    hs.moveTo (Accounts.phrase hacc declarationModifiers state) (vague_sees nofun)
  refine draw_attempt_congr _ rfl (draw_attempt_congr _ (draw_guardedField hc) ?_)
  have hfunction := draw_guardedFunction hacc hbook hstands hc
  exact draw_seq_congr (blame leadingTypes functionRest) (draw_seq_congr_left _ hfunction)

/-- A contract that a phrase fulfils is followed by its readings. -/
theorem follows_of_fulfils {drawRule : Rule → ParseState → Reading} {budget : Nat}
    (hacc : ∀ rule, Accounts (drawRule rule)) (hbook : book.Holds budget drawRule)
    {phrase : Clause} {rank : Nat} {care : Care} {contract : Contract}
    (h : fulfils phrase rank care contract = true) :
    Follows budget (phrase.draw drawRule) care rank contract.entry contract.exits := by
  obtain ⟨exits, hscan, hcovers⟩ := (Option.any_eq_true _ _).mp h
  exact fun origin state hs ha =>
    (follows_scan hacc hbook phrase hscan origin state hs ha).weaken hcovers

/-- Every rule keeps its contracts, whatever the budget. -/
theorem holds_book (budget : Nat) : book.Holds budget (drawRule grammar budget) := by
  induction budget with
  | zero =>
    intro rule care contract _ origin state hs
    exact absurd hs.affords (by simp [ParseState.Affords])
  | succ budget ih =>
    intro rule care contract hmem origin state hs ha
    have hacc := accounts_drawRule grammar budget
    have hs' : contract.entry.Stands origin (rank rule) budget state :=
      ⟨hs.sees, hs.grounded, hs.origin_le, Nat.le_of_succ_le_succ hs.affords⟩
    by_cases hd : rule = .declaration
    · subst hd
      have hf := List.all_eq_true.mp (fulfils_guardedDeclaration care) contract hmem
      have hdraw := draw_guardedDeclaration hacc ih hs'
      have hc := follows_of_fulfils hacc ih hf origin state hs'
      rw [hdraw] at hc
      exact hc ha
    · have hf := List.all_eq_true.mp (fulfils_contracts hd care) contract hmem
      exact follows_of_fulfils hacc ih hf origin state hs' ha

end Grammar

end ScriptTree

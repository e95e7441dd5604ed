import ScriptTree.Proofs.Grammar.File
import ScriptTree.Proofs.Parser.Footing
import ScriptTree.Proofs.Parser.Shift

/-!
The items of a file, one by one. Each round of reading a file gives one node, and the lexer behind
it is ready for another item: behind a semicolon or a closing brace, the lookahead is an ordinary
token.
-/

namespace ScriptTree

namespace Phrase

open ParseState Reading Footing

variable {Rule : Type}

def alwaysChooses : Phrase Rule → Bool
  | .choose _ => true
  | .seq _ second => second.alwaysChooses
  | .branch _ yes no | .look _ yes no | .attempt _ yes no => yes.alwaysChooses && no.alwaysChooses
  | _ => false

/-- Such a phrase has settled a kind even if parts of it have failed. -/
theorem chose_of_alwaysChooses (drawRule : Rule → ParseState → Reading) {phrase : Phrase Rule}
    (h : phrase.alwaysChooses = true) (state : ParseState) :
    ∃ kind, (phrase.draw drawRule state).verdict = .chose kind := by
  induction phrase generalizing state with
  | choose kind => exact ⟨kind, rfl⟩
  | seq first second _ ih => exact ih h _
  | branch test yes no ih ih' =>
    obtain ⟨hyes, hno⟩ := Bool.and_eq_true_iff.mp h
    simp only [draw]
    split
    · exact ih hyes state
    · exact ih' hno state
  | look probe yes no _ ih ih' =>
    obtain ⟨hyes, hno⟩ := Bool.and_eq_true_iff.mp h
    simp only [draw, instead]
    split
    · exact ih hyes state
    · exact ih' hno state
  | attempt body yes no _ ih ih' =>
    obtain ⟨hyes, hno⟩ := Bool.and_eq_true_iff.mp h
    simp only [draw]
    split
    · exact ih hyes _
    · exact ih' hno state
  | _ => cases h

def makesNode (rules : Rule → Bool) : Phrase Rule → Bool
  | .node body => body.alwaysChooses
  | .branch _ yes no => yes.makesNode rules && no.makesNode rules
  | .call rule => rules rule
  | _ => false

/-- Such a phrase has made a single node even if parts of it have failed. -/
theorem node_of_makesNode {drawRule : Rule → ParseState → Reading} {rules : Rule → Bool}
    (hrules : ∀ rule state, rules rule = true →
      ∃ kind children, (drawRule rule state).shapes = [.node kind none children])
    {phrase : Phrase Rule} (h : phrase.makesNode rules = true) (state : ParseState) :
    ∃ kind children, (phrase.draw drawRule state).shapes = [.node kind none children] := by
  induction phrase generalizing state with
  | node body _ =>
    obtain ⟨kind, hkind⟩ := chose_of_alwaysChooses drawRule h state
    exact ⟨kind, _, by rw [draw, close_of_chose hkind]⟩
  | branch test yes no ih ih' =>
    obtain ⟨hyes, hno⟩ := Bool.and_eq_true_iff.mp h
    simp only [draw]
    split
    · exact ih hyes state
    · exact ih' hno state
  | call rule => exact hrules rule state h
  | _ => cases h

/-- A loop with enough rounds gives the same with any other number of rounds that is enough. -/
theorem drawLoop_eq_of_kept {test : ParseState → Bool} {step : ParseState → Reading}
    {state : ParseState} {rounds rounds' : Nat}
    (h : (drawLoop test step state rounds).misused = false)
    (h' : (drawLoop test step state rounds').misused = false) :
    drawLoop test step state rounds = drawLoop test step state rounds' := by
  -- a loop that runs out of rounds breaks a rule of use, so neither of them does
  induction rounds generalizing state rounds' with
  | zero => cases h
  | succ rounds ih =>
    cases rounds' with
    | zero => cases h'
    | succ rounds' =>
      simp only [drawLoop] at h h' ⊢
      split at h
      · next ht =>
        rw [if_pos ht] at h' ⊢
        rw [if_pos ht]
        split at h
        · next hv => rw [if_pos hv, if_pos hv]
        · next hv =>
          rw [if_neg hv] at h' ⊢
          rw [if_neg hv]
          have hrest := (Bool.or_eq_false_iff.mp h).2
          have hrest' := (Bool.or_eq_false_iff.mp h').2
          rw [ih hrest hrest']
      · next ht => rw [if_neg ht, if_neg ht]

/-- A loop whose rounds give one shape each, cut behind one of its shapes. What holds of the lexer
before the first round and is kept by every round holds of the lexer at the cut. -/
theorem drawLoop_cut {test : ParseState → Bool} {step : ParseState → Reading}
    (holds : Lexer → Prop) (hsingle : ∀ state, ∃ shape, (step state).shapes = [shape])
    (hfits : ∀ state, (step state).verdict ≠ .failed) (haccounts : Accounts step)
    (hholds : ∀ state : ParseState, holds state.lexer → holds (step state).lexer)
    {state : ParseState} (hstate : holds state.lexer) {rounds : Nat} {front back : List Shape}
    {shape : Shape} (h : (drawLoop test step state rounds).shapes = front ++ shape :: back) :
    ∃ (before last : Reading) (rounds' : Nat), before.shapes = front ∧ last.shapes = [shape] ∧
      before.Accounted state.lexer ∧ last.Accounted before.lexer ∧ holds last.lexer ∧
      drawLoop test step state rounds = (before.andThen last).andThen
        (drawLoop test step (state.moveTo last.lexer) rounds') := by
  induction rounds generalizing state front with
  | zero => simp [drawLoop, stay] at h
  | succ rounds ih =>
    simp only [drawLoop] at h
    split at h
    · next ht =>
      rw [if_neg (hfits state)] at h
      obtain ⟨first, hfirst⟩ := hsingle state
      have hdraw : drawLoop test step state (rounds + 1) = (step state).andThen
          (drawLoop test step (state.moveTo (step state).lexer) rounds) := by
        rw [drawLoop, if_pos ht]
        exact if_neg (hfits state)
      rw [hdraw]
      simp only [andThen, hfirst, List.singleton_append] at h
      -- the cut lies behind the first shape, or behind one of the rounds to come
      cases front with
      | nil =>
        obtain ⟨rfl, -⟩ := List.cons.inj h
        refine ⟨stay state .done, step state, rounds, rfl, hfirst,
          accounted_nothing rfl rfl (Nat.le_refl _), haccounts state, hholds state hstate, ?_⟩
        rw [stay_andThen]
      | cons head front =>
        obtain ⟨rfl, hrest⟩ := List.cons.inj h
        obtain ⟨before, last, rounds', hbefore, hlast, hacc, hacc', hend, heq⟩ :=
          ih (hholds state hstate) hrest
        refine ⟨(step state).andThen before, last, rounds', ?_, hlast,
          (haccounts state).andThen hacc, hacc', hend, ?_⟩
        · simp [andThen, hfirst, hbefore]
        · rw [heq, andThen_assoc, andThen_assoc, andThen_assoc]
          rfl
    · simp [stay] at h

end Phrase

namespace Grammar

open Phrase Reading ParseState Footing

def isGentle : Rule → Bool
  | .type => true
  | _ => false

theorem tread_firm (rule : Rule) :
    firm.meet ((grammar rule).tread isGentle true .full .firm) = .firm := by
  cases rule with
  | expression least => cases least <;> decide
  | _ => decide +kernel

theorem tread_safe (rule : Rule) (h : isGentle rule = true) :
    (grammar rule).tread isGentle true .full .safe = .safe := by
  cases rule with
  | type => decide +kernel
  | _ => cases h

theorem steady_grammar (budget : Nat) (rule : Rule) :
    Steady (isGentle rule) (drawRule grammar budget rule) :=
  steady_drawRule tread_firm tread_safe budget rule

def drawItem (limit : Nat) : ParseState → Reading :=
  (recover item).draw (drawRule grammar (ruleBudget limit))

theorem accounts_drawItem (limit : Nat) : Accounts (drawItem limit) :=
  Accounts.phrase (accounts_drawRule grammar _) (recover item)

/-- An item leaves the lexer ready for another one. -/
theorem firm_drawItem (limit : Nat) {state : ParseState} (h : firm.Holds state.lexer) :
    firm.Holds (drawItem limit state).lexer := by
  have htread : (recover item).tread isGentle true .full .firm = .firm := by decide +kernel
  have hholds := holds_tread (steady_grammar (ruleBudget limit)) (recover item) true .full .firm
    state (KindSet.contains_full _) h nofun
  rwa [htread] at hholds

theorem drawItem_verdict (limit : Nat) (state : ParseState) :
    (drawItem limit state).verdict = .done := by
  simp only [drawItem, draw]
  split <;> rfl

theorem makesNode_declaration : declaration.makesNode (fun _ => false) = true := by
  decide

theorem makesNode_item : item.makesNode (· == .declaration) = true := by
  decide

/-- A declaration is one node. -/
theorem declaration_shapes (limit : Nat) (state : ParseState) :
    ∃ kind children, (drawRule grammar (ruleBudget limit) .declaration state).shapes =
      [.node kind none children] := by
  have hbudget : ruleBudget limit = (8 * limit + 7) + 1 := by
    unfold ruleBudget
    omega
  have hdraw : drawRule grammar (ruleBudget limit) .declaration state =
      declaration.draw (drawRule grammar (8 * limit + 7)) state := by
    rw [hbudget]
    rfl
  rw [hdraw]
  exact node_of_makesNode (fun _ _ h => Bool.noConfusion h) makesNode_declaration state

/-- An item is one node. -/
theorem drawItem_shapes (limit : Nat) (state : ParseState) :
    ∃ kind children, (drawItem limit state).shapes = [.node kind none children] := by
  simp only [drawItem, draw]
  split
  · refine node_of_makesNode ?_ makesNode_item state
    intro rule state h
    obtain rfl := beq_iff_eq.mp h
    exact declaration_shapes limit state
  · exact ⟨_, _, rfl⟩

def drawItems (limit : Nat) (state : ParseState) (rounds : Nat) : Reading :=
  drawLoop (fun state => Test.holds state (.not (.sees .eof))) (drawItem limit) state rounds

theorem fileReading_eq (text : String) (limit : Nat) :
    fileReading text limit =
      drawItems limit (.ofText text limit) (ofText text limit).rounds :=
  rfl

/-- Items cut behind one of them: the lexer there is ready for another item. -/
theorem drawItems_cut {limit : Nat} {state : ParseState} (hstate : firm.Holds state.lexer)
    {rounds : Nat} {front back : List Shape} {shape : Shape}
    (h : (drawItems limit state rounds).shapes = front ++ shape :: back) :
    ∃ (before last : Reading) (rounds' : Nat), before.shapes = front ∧ last.shapes = [shape] ∧
      before.Accounted state.lexer ∧ last.Accounted before.lexer ∧ firm.Holds last.lexer ∧
      drawItems limit state rounds = (before.andThen last).andThen
        (drawItems limit (state.moveTo last.lexer) rounds') := by
  have hsingle (state : ParseState) : ∃ shape, (drawItem limit state).shapes = [shape] := by
    obtain ⟨kind, children, hshapes⟩ := drawItem_shapes limit state
    exact ⟨_, hshapes⟩
  have hfits (state : ParseState) : (drawItem limit state).verdict ≠ .failed := by
    rw [drawItem_verdict]
    exact Verdict.noConfusion
  exact drawLoop_cut firm.Holds hsingle hfits (accounts_drawItem limit)
    (fun _ => firm_drawItem limit) hstate h

/-- Items read the same further on in a text. -/
theorem shifts_drawItems (distance limit rounds : Nat) :
    Shifts distance (drawItems limit · rounds) :=
  Shifts.loop (Shifts.phrase (shifts_drawRule grammar _) (recover item)) rounds

end Grammar

end ScriptTree

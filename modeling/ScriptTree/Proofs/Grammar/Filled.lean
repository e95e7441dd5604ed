import ScriptTree.Proofs.Grammar.Filling
import ScriptTree.Proofs.Grammar.Items
import ScriptTree.Proofs.Grammar.Needs

/-!
No node of a file is empty, and where a single node is all that a node has, their kinds differ. This
is told from the grammar by the courses of its rules. As in their contracts, the phrase of
declarations is replaced by one that asks again for what the shape of a call implies.
-/

namespace ScriptTree

namespace Grammar

open Sight Phrase Reading

def soleKinds : Kind → KindSet
  | .namedType | .enumerator => .single .ident
  | .returnTypes | .parameter => .ofClass Kind.isTypeSpecifier
  | .variableDeclarator => .ofList [.ident, .callExpr]
  | .forInitializer | .forUpdate => .ofClass Kind.isExpression
  | .stateDuration => (KindSet.ofClass Kind.isExpression).insert .randomDuration
  | .stateAction => (KindSet.ofClass Kind.isExpression).insert .compoundStatement
  | .gotoTarget => .ofList [.ident, .dottedName]
  | .declarationModifiers =>
    .ofList [.modifier, .actionModifier, .deprecatedModifier, .versionModifier]
  | .classHeaderFlags => .ofList [.replacesClause, .classFlag]
  | _ => .empty

structure Filled (kind : Kind) (children : List Shape) : Prop where
  inner : kind ≠ .sourceFile
  ne_nil : children ≠ []
  sole : ∀ below field inside, children = [.node below field inside] →
    (soleKinds kind).contains below = true

def seats (kind : Kind) : Filling → Bool
  | .nothing => false
  | .lone kinds => kind != .sourceFile && kinds.isSubset (soleKinds kind)
  | .plenty => kind != .sourceFile

def making (rule : Rule) : Course :=
  ⟨.node, .lone (yields rule).2⟩

/-- How the rules go. Without failure every rule makes a node. A declaration that is kept in spite
of failures needs a promise for its parts, which are types, expressions and a block. -/
def promises : Rule → Care → List Promise
  | rule, .clean => [⟨entry rule, [making rule]⟩]
  -- an opening token is sure to be taken
  | .arguments, .strict => [⟨entry .arguments, [making .arguments]⟩]
  | .compound, .strict => [⟨seeing (.single .leftBrace), [making .compound]⟩]
  -- these may fail before they take anything
  | .expression least, .strict =>
    [⟨vague none, [making (.expression least), ⟨.failed, .nothing⟩]⟩]
  | .unary, .strict => [⟨vague none, [making .unary, ⟨.failed, .nothing⟩]⟩]
  | .suffixed, .strict => [⟨vague none, [making .suffixed, ⟨.failed, .nothing⟩]⟩]
  | .type, .strict => [⟨vague none, [making .type, ⟨.failed, .nothing⟩]⟩]
  | _, _ => []

/-- What the courses of the grammar are told from. -/
def chart : Chart Rule :=
  ⟨book, promises, seats⟩

/-- Nodes of every kind have what the chart demands of them. -/
theorem enforces_chart : chart.Enforces Filled := by
  intro kind filling children h hholds
  change seats kind filling = true at h
  cases filling with
  | nothing => cases h
  | lone kinds =>
    rw [seats, Bool.and_eq_true, bne_iff_ne] at h
    obtain ⟨below, field, inside, rfl, hbelow⟩ := hholds
    refine ⟨h.1, List.cons_ne_nil _ _, fun below' field' inside' heq => ?_⟩
    obtain ⟨rfl, -⟩ := Shape.node.inj (List.singleton_inj.mp heq)
    exact KindSet.contains_of_isSubset h.2 hbelow
  | plenty =>
    rw [seats, bne_iff_ne] at h
    exact ⟨h, hholds.1, fun below field inside heq => absurd heq (hholds.2 below field inside)⟩

def redeems (phrase : Clause) (rank : Nat) (care : Care) (promise : Promise) : Bool :=
  (phrase.courses chart care rank promise.entry).any fun courses =>
    courses.all fun course => promise.courses.any course.within

theorem charts_of_redeems {drawRule : Rule → ParseState → Reading} {budget : Nat}
    (hacc : ∀ rule, Accounts (drawRule rule)) (hbook : book.Holds budget drawRule)
    (hpromises : chart.Holds Filled budget drawRule) {phrase : Clause} {rank : Nat} {care : Care}
    {promise : Promise} (h : redeems phrase rank care promise = true) :
    Charts Filled budget (phrase.draw drawRule) care rank promise.entry promise.courses := by
  obtain ⟨courses, hcourses, hall⟩ := (Option.any_eq_true _ _).mp h
  intro origin state hs ha
  obtain ⟨hmeets, course, hcourse, hdescribes⟩ :=
    isCharted enforces_chart hacc hbook hpromises phrase hcourses origin state hs ha
  obtain ⟨other, hother, hwithin⟩ := List.any_eq_true.mp (List.all_eq_true.mp hall course hcourse)
  exact ⟨hmeets, other, hother, hdescribes.weaken hwithin⟩

def functionTail : Clause :=
  steps
    [name .name, parameterList, when (.sees .constKw) (nodeOf .constMethod [token]),
     cases
      [(.sees .leftBrace, inSlot .body (.call .compound)),
       (.sees .semicolon, token)]
      (.missing "a method body or `;`")]

def shapedFunction : Clause :=
  .attempt leadingTypes
    (.branch (.and (.sees .name) (.next .leftParen)) (.absorb functionTail)
      (.missing "an identifier"))
    (.missing "a type")

def openedModifiers : Clause :=
  let rounds : Clause :=
    .seq (.loop modifierStart declarationModifier) (.choose .declarationModifiers)
  inSlot .modifiers <| .node <|
    cases
      [(.and (.sees .readonlyKw) (.not (.next .lt)), rounds),
       (.seesAny (.actionKw :: .deprecatedKw :: .versionKw :: plainModifiers), rounds)]
      .reject

def shapedDeclaration : Clause :=
  .node <| .seq openedModifiers <|
    .look callShape
      (.attempt functionRest (.choose .functionDefinition)
        (.attempt guardedField (.choose .fieldDeclaration)
          (steps
            [.blame leadingTypes functionRest, shapedFunction, .choose .functionDefinition])))
      (steps
        [typeQualifier, typeSpec, declarators, expect .semicolon, .choose .fieldDeclaration])

section

variable {drawRule : Rule → ParseState → Reading} {state : ParseState}

theorem draw_openedModifiers :
    openedModifiers.draw drawRule state = declarationModifiers.draw drawRule state := by
  have hbranch (first second : Test) (yes no : Clause) :
      (branch first yes (branch second yes no)).draw drawRule state =
        (branch (.or first second) yes no).draw drawRule state := by
    simp only [draw, Test.holds]
    by_cases hfirst : first.holds state = true <;> simp [hfirst]
  exact congrArg (fun reading : Reading => reading.close.fill .modifiers) (hbranch _ _ _ _)

/-- In the shape of a call, a function reads the same behind its types. -/
theorem draw_shapedFunction (h : (callShape.draw drawRule state).isClean = true) :
    shapedFunction.draw drawRule state = (absorb functionRest).draw drawRule state := by
  have htest := name_leftParen_of_callShape h
  -- the shape of a call starts with the same types
  have hzero : (leadingTypes.draw drawRule state).failures = 0 := by
    simp only [Reading.isClean, Bool.and_eq_true, beq_iff_eq] at h
    exact (Nat.add_eq_zero_iff.mp h.2).1
  have hfits : (leadingTypes.draw drawRule state).verdict ≠ .failed := by
    have hnode (types : Reading) (h : types.verdict = .chose .returnTypes) :
        (types.close.fill .returnTypes).verdict ≠ .failed := by
      rw [close_of_chose h, fill_of_node rfl]
      exact Verdict.noConfusion
    exact hnode _ rfl
  have hclean : (leadingTypes.draw drawRule state).isClean = true := by
    simp [Reading.isClean, hzero, hfits]
  have hrest : functionRest.draw drawRule state = (leadingTypes.draw drawRule state).andThen
      (functionTail.draw drawRule (state.moveTo (leadingTypes.draw drawRule state).lexer)) :=
    (andThen_assoc _ _ _).symm
  rw [shapedFunction, draw, if_pos hclean, draw, if_pos htest]
  simp only [draw, hrest]
  simp [Reading.andThen, hzero]

/-- Asking for what the shape of a call implies changes no reading. -/
theorem draw_shapedDeclaration :
    shapedDeclaration.draw drawRule state = declaration.draw drawRule state := by
  refine congrArg Reading.close ((draw_seq_congr_left _ draw_openedModifiers).trans
    (draw_seq_congr _ (draw_look_congr _ _ fun hc => ?_)))
  refine draw_attempt_congr _ rfl (draw_attempt_congr _ (draw_guardedField hc) ?_)
  exact draw_seq_congr (blame leadingTypes functionRest)
    (draw_seq_congr_left _ (draw_shapedFunction hc))

end

theorem redeems_expression (least : Precedence) (care : Care) :
    (promises (.expression least) care).all
      (redeems (grammar (.expression least)) (rank (.expression least)) care) = true := by
  cases least <;> cases care <;> decide +kernel

/-- The courses of the phrase of a rule are what is promised. -/
theorem redeems_promises {rule : Rule} (h : rule ≠ .declaration) (care : Care) :
    (promises rule care).all (redeems (grammar rule) (rank rule) care) = true := by
  cases rule with
  | declaration => exact absurd rfl h
  | expression least => exact redeems_expression least care
  | _ => cases care <;> decide +kernel

theorem redeems_shapedDeclaration (care : Care) :
    (promises .declaration care).all
      (redeems shapedDeclaration (rank .declaration) care) = true := by
  cases care <;> decide +kernel

/-- Every rule keeps its promises, whatever the budget. -/
theorem holds_chart (budget : Nat) : chart.Holds Filled budget (drawRule grammar budget) := by
  -- the rules that a phrase calls are read with a smaller budget
  induction budget with
  | zero =>
    intro rule care promise _ origin state hs
    exact absurd hs.affords (by simp [ParseState.Affords])
  | succ budget ih =>
    intro rule care promise hmem origin state hs ha
    have hacc := accounts_drawRule grammar budget
    have hs' : promise.entry.Stands origin (rank rule) budget state :=
      ⟨hs.sees, hs.grounded, hs.origin_le, Nat.le_of_succ_le_succ hs.affords⟩
    by_cases hd : rule = .declaration
    · -- the courses are told from the phrase with the guards, which reads the same
      subst hd
      have hredeems := List.all_eq_true.mp (redeems_shapedDeclaration care) promise hmem
      have hcharts := charts_of_redeems hacc (holds_book budget) ih hredeems origin state hs'
      rw [draw_shapedDeclaration] at hcharts
      exact hcharts ha
    · have hredeems := List.all_eq_true.mp (redeems_promises hd care) promise hmem
      exact charts_of_redeems hacc (holds_book budget) ih hredeems origin state hs' ha

theorem courses_fileItems : (fileItems.courses chart .strict 8 (vague none)).isSome = true := by
  decide +kernel

/-- Every node of a file but the file itself is filled as its kind asks. -/
theorem filled_fileReading (text : String) (limit : Nat) :
    Shape.AllOf Filled (fileReading text limit).shapes := by
  obtain ⟨courses, hcourses⟩ := Option.isSome_iff_exists.mp courses_fileItems
  have hcharts := isCharted enforces_chart (accounts_drawRule grammar (ruleBudget limit))
    (holds_book _) (holds_chart _) fileItems hcourses 0 (.ofText text limit)
  refine (hcharts ⟨vague_sees nofun, grounded_ofText text limit, Nat.zero_le _, ?_⟩ nofun).meets
  simp only [ParseState.Affords, ruleBudget, ParseState.ofText]
  omega

end Grammar

end ScriptTree

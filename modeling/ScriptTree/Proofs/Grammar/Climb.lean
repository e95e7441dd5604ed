import ScriptTree.Proofs.Grammar.File
import ScriptTree.Proofs.Grammar.Grouped

/-!
Climbing the levels of binding. What an expression has read so far is an operand for the operators
to come: the lookahead behind it is looser than its own level allows on the right. With that, every
operand of a quiet reading is one that its operator allows.
-/

namespace ScriptTree

namespace Grammar

open Phrase ParseState Reading

def operandKinds : KindSet :=
  .ofList
    [.literal, .concatenatedString, .nameRef, .keywordExpr, .castExpr, .classCastExpr,
     .vectorLiteral, .parenExpr, .sizeofExpr, .newExpr]

def results : Rule → KindSet
  | .suffixed => operandKinds.union suffixes
  | .unary => (operandKinds.union suffixes).insert .prefixExpr
  | .expression _ => ((operandKinds.union suffixes).insert .prefixExpr).union operations
  | .arguments => .single .argumentList
  | _ => .full

theorem made_grammar (rule : Rule) :
    ((grammar rule).made results).any (·.isSubset (results rule)) = true := by
  cases rule with
  | expression least => cases least <;> decide
  | _ => decide +kernel

/-- Unless it has something to report, every rule makes a node. -/
theorem rulesMake_drawRule (budget : Nat) : RulesMake results (drawRule grammar budget) := by
  induction budget with
  | zero => exact fun rule state hquiet => absurd hquiet.kept Bool.noConfusion
  | succ budget ih =>
    intro rule state hquiet
    have hmade := made_grammar rule
    rw [Option.any_eq_true] at hmade
    obtain ⟨kinds, hmade, hsub⟩ := hmade
    exact (makes_of_made ih hmade hquiet).mono fun _ => KindSet.contains_of_isSubset hsub

def suffixMarks : KindSet :=
  .ofList [.leftParen, .leftBracket, .dot, .colon2, .plus2, .minus2]

def Stops (drawRule : Rule → ParseState → Reading) (phrase : Clause) : Prop :=
  ∀ state, Quiet (phrase.draw drawRule state) →
    suffixMarks.contains (phrase.draw drawRule state).lexer.current.kind = false

section Stops

variable {drawRule : Rule → ParseState → Reading} {phrase : Clause}

theorem Stops.seq (h : Stops drawRule phrase) (first : Clause) :
    Stops drawRule (.seq first phrase) :=
  fun _ hquiet => h _ hquiet.of_andThen.2

theorem Stops.settled (h : Stops drawRule phrase) (kind : Kind) :
    Stops drawRule (.seq phrase (.choose kind)) :=
  fun _ hquiet => h _ hquiet.of_andThen.1

theorem Stops.branch (h : Stops drawRule phrase) {no : Clause} (h' : Stops drawRule no)
    (test : Test) : Stops drawRule (.branch test phrase no) := by
  intro state hquiet
  simp only [draw] at hquiet ⊢
  split at hquiet
  · next ht =>
    rw [if_pos ht]
    exact h state hquiet
  · next ht =>
    rw [if_neg ht]
    exact h' state hquiet

theorem Stops.slot (h : Stops drawRule phrase) (field : Kind → Field) :
    Stops drawRule (.slot field phrase) := by
  intro state hquiet
  rw [draw, fill_lexer]
  exact h state hquiet.of_fill

theorem Stops.node (h : Stops drawRule phrase) : Stops drawRule (.node phrase) := by
  intro state hquiet
  rw [draw, close_lexer]
  exact h state (Quiet.of_close hquiet)

theorem Stops.nested (h : Stops drawRule phrase) : Stops drawRule (.nested phrase) := by
  intro state hquiet
  have hdraw := draw_nested_of_quiet hquiet
  rw [hdraw] at hquiet ⊢
  exact h _ hquiet

/-- A cast takes all suffixes into its operand. -/
theorem stops_cast (h : Stops drawRule (.call .unary)) : Stops drawRule cast := by
  have htail (kind : Kind) : Stops drawRule (castTail kind) :=
    (((h.nested.slot _).settled kind).seq _).seq _
  exact (((htail _).branch (htail _) _).seq _).node

theorem stops_unary (h : Stops drawRule (.call .unary)) (h' : Stops drawRule (.call .suffixed)) :
    Stops drawRule unary :=
  (((h.slot _).settled _).seq _).node.nested.branch h' _

/-- A chain of suffixes ends where none follows. -/
theorem stops_suffixed (hmakes : RulesMake results drawRule) : Stops drawRule suffixed := by
  have hmade : ∃ kinds, primary.made results = some kinds :=
    Option.isSome_iff_exists.mp (by decide)
  obtain ⟨kinds, hmade⟩ := hmade
  intro state hquiet
  obtain ⟨hverdict, kind, slot, children, hshapes, -⟩ :=
    makes_of_made hmakes hmade (quiet_of_chain hquiet)
  obtain ⟨-, -, -, -, hend⟩ :=
    chain_induction (fun _ _ => True) hquiet hverdict hshapes trivial
      (fun _ _ _ _ _ _ _ => trivial)
  exact hend

def Guards (drawRule : Rule → ParseState → Reading) (phrase : Clause) : Prop :=
  ∀ state, Quiet (phrase.draw drawRule state) → ∀ kind slot children,
    .node kind slot children ∈ (phrase.draw drawRule state).shapes →
    prefixes.contains kind = true →
    suffixMarks.contains (phrase.draw drawRule state).lexer.current.kind = false

theorem Stops.guards (h : Stops drawRule phrase) : Guards drawRule phrase :=
  fun state hquiet _ _ _ _ _ => h state hquiet

theorem guards_of_made (hmakes : RulesMake results drawRule)
    (h : (phrase.made results).any (·.isDisjoint prefixes) = true) : Guards drawRule phrase := by
  rw [Option.any_eq_true] at h
  obtain ⟨kinds, hmade, hfree⟩ := h
  intro state hquiet kind slot children hmem hin
  obtain ⟨-, inner, slot', below, hshapes, hkind⟩ := makes_of_made hmakes hmade hquiet
  rw [hshapes, List.mem_singleton] at hmem
  injection hmem with hinner
  rw [hinner, KindSet.not_contains_of_isDisjoint hfree hkind] at hin
  cases hin

theorem Guards.branch (h : Guards drawRule phrase) {no : Clause} (h' : Guards drawRule no)
    (test : Test) : Guards drawRule (.branch test phrase no) := by
  intro state hquiet
  simp only [draw] at hquiet ⊢
  split at hquiet
  · next ht =>
    rw [if_pos ht]
    exact h state hquiet
  · next ht =>
    rw [if_neg ht]
    exact h' state hquiet

theorem Guards.look (h : Guards drawRule phrase) {no : Clause} (h' : Guards drawRule no)
    (probe : Clause) : Guards drawRule (.look probe phrase no) := by
  intro state hquiet
  simp only [draw] at hquiet ⊢
  split at hquiet
  · next hc =>
    rw [if_pos hc]
    exact h state hquiet.of_instead
  · next hc =>
    rw [if_neg hc]
    exact h' state hquiet.of_instead

/-- Of the operands without operators, only casts have an operand behind them. -/
theorem guards_primary (hmakes : RulesMake results drawRule)
    (h : Stops drawRule (.call .unary)) : Guards drawRule primary := by
  have hplain {clause : Clause}
      (hmade : (clause.made results).any (·.isDisjoint prefixes) = true) :=
    guards_of_made hmakes hmade
  refine (hplain (by decide)).branch ?_ _
  refine (hplain (by decide)).branch ?_ _
  refine (hplain (by decide)).branch ?_ _
  refine (hplain (by decide)).branch ?_ _
  refine Guards.branch ?_ (hplain (by decide)) _
  exact (stops_cast h).guards.look (hplain (by decide)) _

end Stops

structure Climbs (drawRule : Rule → ParseState → Reading) : Prop where
  makes : RulesMake results drawRule
  grouped : ∀ rule state, Quiet (drawRule rule state) →
    Shape.AllOf Shape.Grouped (drawRule rule state).shapes
  unary : Stops drawRule (.call .unary)
  suffixed : Stops drawRule (.call .suffixed)
  expression : ∀ least state, Quiet (drawRule (.expression least) state) →
    (binaryOperators least).contains (drawRule (.expression least) state).lexer.current.kind =
      false ∧
    ∀ kind slot children q, .node kind slot children ∈ (drawRule (.expression least) state).shapes →
      Shape.levelOf? kind children = some q → least.level ≤ q.level

variable {drawRule : Rule → ParseState → Reading}

/-- What stands before a suffix is no operation, and no cast either, since a cast would have taken
the suffix into its operand. -/
def IsBase (lexer : Lexer) (shape : Shape) : Prop :=
  shape.All Shape.Grouped ∧ ∃ kind slot children, shape = .node kind slot children ∧
    operations.contains kind = false ∧
    (prefixes.contains kind = true → suffixMarks.contains lexer.current.kind = false)

/-- A suffix makes a node that further suffixes may follow. -/
theorem Climbs.isBase_suffix (h : Climbs drawRule) {shape : Shape} {state : ParseState}
    (hbase : IsBase state.lexer shape) (hmark : suffixMarks.contains state.kind = true)
    (hquiet : Quiet (suffixTail.draw drawRule state)) {kind : Kind}
    (hchose : (suffixTail.draw drawRule state).verdict = .chose kind) (field : Field) :
    IsBase (suffixTail.draw drawRule state).lexer (.node kind none
      (shape.withField field :: (suffixTail.draw drawRule state).shapes)) := by
  obtain ⟨hshape, inner, slot, below, rfl, hoperation, hfront⟩ := hbase
  have hmem := contains_chosen h.makes hquiet hchose
  have hnone : operations.contains kind = false :=
    KindSet.not_contains_of_isDisjoint
      (show suffixTail.chosen.isDisjoint operations = true by decide) hmem
  have hnone' : prefixes.contains kind = false :=
    KindSet.not_contains_of_isDisjoint
      (show suffixTail.chosen.isDisjoint prefixes = true by decide) hmem
  have hrest := grouped_of_spares h.makes
    (show suffixTail.sparesOperands results = true by decide +kernel) hquiet hmem
  have hbelow := grouped_of_groups h.makes h.grouped
    (show suffixTail.groups results = true by decide) hquiet
  refine ⟨⟨?_, hshape, hbelow⟩, kind, none, _, rfl, hnone, ?_⟩
  · apply Shape.grouped_of_not_operation hnone
    · intro hin
      rw [hnone'] at hin
      cases hin
    · intro hin place hplace operand under hchild
      rcases List.mem_cons.mp hchild with hfirst | hlater
      · injection hfirst with hoperand
        rw [hoperand]
        refine ⟨hoperation, Bool.eq_false_iff.mpr ?_⟩
        intro hcast
        rw [ParseState.kind, current, hfront hcast] at hmark
        cases hmark
      · exact hrest.base hin place hplace operand under hlater
  · intro hin
    rw [hnone'] at hin
    cases hin

/-- What a suffix is put behind is no operation, and the arguments in it are read as expressions of
their own. -/
theorem Climbs.grouped_suffixed (h : Climbs drawRule) {state : ParseState}
    (hquiet : Quiet (Grammar.suffixed.draw drawRule state)) :
    Shape.AllOf Shape.Grouped (Grammar.suffixed.draw drawRule state).shapes := by
  rw [Grammar.suffixed] at hquiet ⊢
  have hhead := quiet_of_chain hquiet
  have hprimary : (primary.made results).any (·.isDisjoint operations) = true := by
    decide
  rw [Option.any_eq_true] at hprimary
  obtain ⟨kinds, hmade, hfree⟩ := hprimary
  obtain ⟨hverdict, kind, slot, children, hshapes, hkind⟩ := makes_of_made h.makes hmade hhead
  have hguard := guards_primary h.makes h.unary state hhead kind slot children
    (hshapes ▸ List.mem_singleton_self _)
  have hgrouped := grouped_of_groups h.makes h.grouped
    (show primary.groups results = true by decide +kernel) hhead
  rw [hshapes] at hgrouped
  have hbase : IsBase (primary.draw drawRule state).lexer (.node kind slot children) :=
    ⟨hgrouped.1, kind, slot, children, rfl, KindSet.not_contains_of_isDisjoint hfree hkind, hguard⟩
  obtain ⟨last, -, hlast, hall, -⟩ :=
    chain_induction IsBase hquiet hverdict hshapes hbase
      (fun _ _ _ hbase htest hstep hchose => h.isBase_suffix hbase htest hstep hchose _)
  rw [hlast]
  exact ⟨hall.1, trivial⟩

/-- The rest of an operation of a level, from its operator on. It fits behind any left operand, its
right operand is one that the level allows, and the operator that follows is looser. -/
structure Continues (p : Precedence) (body : Reading) : Prop where
  level : ∀ kind, body.verdict = .chose kind → ∀ inner slot below,
    Shape.levelOf? kind (.node inner slot below :: body.shapes) = some p
  inner : ∀ kind, body.verdict = .chose kind →
    prefixes.contains kind = false ∧ suffixes.contains kind = false
  left : ∀ slot inner below, .node inner (some slot) below ∈ body.shapes →
    slot ≠ .left ∧ slot ≠ .condition
  right : ∀ slot inner below q, .node inner (some slot) below ∈ body.shapes →
    slot = .right ∨ slot = .alternative → Shape.levelOf? inner below = some q → p.HoldsRight q
  ends : (binaryOperators p.rightOperand).contains body.lexer.current.kind = false

/-- An expression in a slot. -/
theorem Climbs.slot_expression (h : Climbs drawRule) {field : Field} {least : Precedence}
    {state : ParseState}
    (hquiet : Quiet ((inSlot field (.call (.expression least))).draw drawRule state)) :
    ∃ kind children, ((inSlot field (.call (.expression least))).draw drawRule state).shapes =
        [.node kind (some field) children] ∧
      (∀ q, Shape.levelOf? kind children = some q → least.level ≤ q.level) ∧
      (binaryOperators least).contains ((inSlot field
        (.call (.expression least))).draw drawRule state).lexer.current.kind = false := by
  have hbody : Quiet (drawRule (.expression least) state) := hquiet.of_fill
  obtain ⟨hends, hlevel⟩ := h.expression least state hbody
  obtain ⟨kind, children, hshapes, -, -, old, hold⟩ := (h.makes _ state hbody).fill field
  refine ⟨kind, children, hshapes, ?_, ?_⟩
  · intro q hq
    exact hlevel kind old children q (hold ▸ List.mem_singleton_self _) hq
  · rw [inSlot, draw, fill_lexer]
    exact hends

/-- The right operand is read from the level that the operator allows there, so the operator that it
ends in front of does not belong to it. -/
theorem Climbs.continues_binaryTail (h : Climbs drawRule) {p : Precedence}
    (hp : p.level ≤ Precedence.power.level) (hne : p ≠ .conditional) {state : ParseState}
    (hmem : state.kind ∈ p.operators) (hquiet : Quiet ((binaryTail p).draw drawRule state)) :
    Continues p ((binaryTail p).draw drawRule state) := by
  have heof : state.kind ≠ .eof := by
    intro he
    rw [he] at hmem
    exact absurd hmem (by cases p <;> decide)
  obtain ⟨kind, children, hshapes, hlevel, hends⟩ :=
    h.slot_expression hquiet.of_andThen.2.of_andThen.1
  have hall : ((binaryTail p).draw drawRule state).shapes =
      [.leaf state.current (some .operator), .node kind (some .right) children] := by
    simp only [binaryTail, steps, draw, andThen, tokenIn] at hshapes ⊢
    rw [hshapes, taken, if_neg heof]
    rfl
  have hkind : ∀ kind, ((binaryTail p).draw drawRule state).verdict = .chose kind →
      kind = .assignmentExpr ∨ kind = .binaryExpr := by
    intro kind hchose
    obtain rfl := Verdict.chose.inj hchose
    split
    · exact Or.inl rfl
    · exact Or.inr rfl
  refine ⟨?_, ?_, ?_, ?_, hends⟩
  · intro outer hchose inner slot below
    rw [hall]
    rcases hkind outer hchose with rfl | rfl <;>
      exact Precedence.ofBinary?_of_mem hp hmem
  · intro outer hchose
    rcases hkind outer hchose with rfl | rfl <;> decide
  · intro slot inner below hchild
    simp only [hall, List.mem_cons, reduceCtorEq, false_or, List.not_mem_nil, or_false] at hchild
    injection hchild with _ hslot
    obtain rfl := Option.some.inj hslot
    decide
  · intro slot inner below q hchild _ hq
    simp only [hall, List.mem_cons, reduceCtorEq, false_or, List.not_mem_nil, or_false] at hchild
    injection hchild with hinner _ hbelow
    rw [hinner, hbelow] at hq
    exact Precedence.holdsRight_of_le hp (hlevel q hq)

/-- The last operand of a conditional is read from its own level, since conditionals group to the
right. -/
theorem Climbs.continues_conditionalTail (h : Climbs drawRule) {state : ParseState}
    (hquiet : Quiet (conditionalTail.draw drawRule state)) :
    Continues .conditional (conditionalTail.draw drawRule state) := by
  have hrest := hquiet.of_andThen.2
  obtain ⟨middle, under, hmiddle, -⟩ := h.slot_expression hrest.of_andThen.1
  obtain ⟨last, children, hlast, hlevel, hends⟩ :=
    h.slot_expression hrest.of_andThen.2.of_andThen.2.of_andThen.1
  -- The parts between the question mark and the colon are bound by neither side.
  have hchildren : ∀ slot inner below,
      .node inner (some slot) below ∈ (conditionalTail.draw drawRule state).shapes →
      slot = .consequence ∨ slot = .alternative ∧ inner = last ∧ below = children := by
    intro slot inner below hchild
    rcases List.mem_append.mp hchild with hmark | hchild
    · exact absurd hmark node_not_mem_taken
    rcases List.mem_append.mp hchild with hchild | hchild
    · rw [hmiddle, List.mem_singleton] at hchild
      injection hchild with _ hslot
      exact Or.inl (Option.some.inj hslot)
    rcases List.mem_append.mp hchild with hcolon | hchild
    · exact absurd hcolon node_not_mem_expect
    rcases List.mem_append.mp hchild with hchild | hnone
    · rw [hlast, List.mem_singleton] at hchild
      injection hchild with hinner hslot hbelow
      exact Or.inr ⟨Option.some.inj hslot, hinner, hbelow⟩
    · cases hnone
  refine ⟨?_, ?_, ?_, ?_, hends⟩
  · intro outer hchose inner slot below
    obtain rfl := Verdict.chose.inj hchose
    rfl
  · intro outer hchose
    obtain rfl := Verdict.chose.inj hchose
    decide
  · intro slot inner below hchild
    rcases hchildren slot inner below hchild with rfl | ⟨rfl, -⟩ <;> decide
  · intro slot inner below q hchild hslot hq
    rcases hchildren slot inner below hchild with rfl | ⟨-, rfl, rfl⟩
    · exact absurd hslot (by decide)
    · exact Precedence.holdsRight_of_le (by decide) (hlevel q hq)

/-- A choice reads as one of its phrases. -/
theorem draw_cases (choices : List (Test × Clause)) (otherwise : Clause) (state : ParseState) :
    (∃ choice ∈ choices, choice.1.holds state = true ∧
      (cases choices otherwise).draw drawRule state = choice.2.draw drawRule state) ∨
    (cases choices otherwise).draw drawRule state = otherwise.draw drawRule state := by
  induction choices with
  | nil => exact Or.inr rfl
  | cons choice rest ih =>
    by_cases ht : choice.1.holds state = true
    · exact Or.inl ⟨choice, List.mem_cons_self, ht, if_pos ht⟩
    · have hdraw : (cases (choice :: rest) otherwise).draw drawRule state =
          (cases rest otherwise).draw drawRule state := if_neg ht
      rw [hdraw]
      exact ih.imp_left fun ⟨other, hmem, hother⟩ => ⟨other, List.mem_cons_of_mem _ hmem, hother⟩

/-- The operator decides the level at which an expression goes on. -/
theorem Climbs.continues_operatorTail (h : Climbs drawRule) {least : Precedence}
    {state : ParseState} (hquiet : Quiet ((operatorTail least).draw drawRule state)) {kind : Kind}
    (hchose : ((operatorTail least).draw drawRule state).verdict = .chose kind) :
    ∃ p, p ∈ least.binaryFrom ∧ state.kind ∈ p.operators ∧
      Continues p ((operatorTail least).draw drawRule state) := by
  have hcases : _ ∨ (operatorTail least).draw drawRule state = _ := draw_cases _ _ state
  rcases hcases with ⟨choice, hmem, htest, hdraw⟩ | hdraw
  · obtain ⟨p, hp, rfl⟩ := List.mem_map.mp hmem
    have hop : state.kind ∈ p.operators := KindSet.contains_ofList.mp htest
    have hle := (Precedence.mem_binaryFrom.mp hp).2
    refine ⟨p, hp, hop, ?_⟩
    have hdraw' : (operatorTail least).draw drawRule state = _ := hdraw
    rw [hdraw'] at hquiet ⊢
    by_cases hc : p = .conditional
    · subst hc
      exact h.continues_conditionalTail hquiet
    · simp only [if_neg hc] at hquiet ⊢
      exact h.continues_binaryTail hle hc hop hquiet
  · rw [hdraw] at hchose
    cases hchose

def IsOperand (least : Precedence) (lexer : Lexer) (shape : Shape) : Prop :=
  shape.All Shape.Grouped ∧ ∃ kind slot children, shape = .node kind slot children ∧
    ∀ q, Shape.levelOf? kind children = some q → least.level ≤ q.level ∧
      ∀ p : Precedence, p.level ≤ Precedence.power.level → lexer.current.kind ∈ p.operators →
        p.HoldsLeft q

/-- One round of climbing: the operation made of an operand and the next operator is an operand
again. -/
theorem Climbs.isOperand_operation (h : Climbs drawRule) {least : Precedence} {shape : Shape}
    {state : ParseState} (hoperand : IsOperand least state.lexer shape)
    (hquiet : Quiet ((operatorTail least).draw drawRule state)) {kind : Kind}
    (hchose : ((operatorTail least).draw drawRule state).verdict = .chose kind) {field : Field}
    (hfield : field = .left ∨ field = .condition) :
    IsOperand least ((operatorTail least).draw drawRule state).lexer
      (.node kind none
        (shape.withField field :: ((operatorTail least).draw drawRule state).shapes)) := by
  obtain ⟨hshape, inner, slot, below, rfl, hleft⟩ := hoperand
  obtain ⟨p, hp, hop, hcontinues⟩ := h.continues_operatorTail hquiet hchose
  obtain ⟨hleast, hpower⟩ := Precedence.mem_binaryFrom.mp hp
  have hlevel := hcontinues.level kind hchose inner (some field) below
  have hbelow := grouped_of_groups h.makes h.grouped
    (show (operatorTail least).groups results = true by cases least <;> decide) hquiet
  refine ⟨⟨⟨?_, ?_, ?_, ?_, ?_⟩, hshape, hbelow⟩, kind, none, _, rfl, ?_⟩
  · exact fun _ => ⟨p, hlevel⟩
  · intro p' q place inner' below' hp' hchild hplace hq
    obtain rfl := Option.some.inj (hlevel.symm.trans hp')
    rcases List.mem_cons.mp hchild with hfirst | hlater
    · injection hfirst with hinner _ hunder
      rw [hinner, hunder] at hq
      exact (hleft q hq).2 p hpower hop
    · obtain ⟨hnl, hnc⟩ := hcontinues.left place inner' below' hlater
      exact absurd hplace (not_or.mpr ⟨hnl, hnc⟩)
  · intro p' q place inner' below' hp' hchild hplace hq
    obtain rfl := Option.some.inj (hlevel.symm.trans hp')
    rcases List.mem_cons.mp hchild with hfirst | hlater
    · injection hfirst with _ hslot
      obtain rfl := Option.some.inj hslot
      rcases hfield with rfl | rfl <;> exact absurd hplace (by decide)
    · exact hcontinues.right place inner' below' q hlater hplace hq
  · intro hin
    rw [(hcontinues.inner kind hchose).1] at hin
    cases hin
  · intro hin
    rw [(hcontinues.inner kind hchose).2] at hin
    cases hin
  · intro q hq
    obtain rfl := Option.some.inj (hlevel.symm.trans hq)
    refine ⟨hleast, ?_⟩
    intro p' hpower' hop'
    -- The right operand has taken every operator of its levels, so this one is looser.
    exact Precedence.holdsLeft_of_lt (level_lt_of_not_contains hcontinues.ends hpower' hop')

/-- An expression is as tight as it was asked to be, and ends in front of no operator that it could
have taken. -/
theorem Climbs.isOperand_climb (h : Climbs drawRule) (least : Precedence) {state : ParseState}
    (hquiet : Quiet ((climb least).draw drawRule state)) :
    ∃ shape, ((climb least).draw drawRule state).shapes = [shape] ∧
      IsOperand least ((climb least).draw drawRule state).lexer shape ∧
      (binaryOperators least).contains ((climb least).draw drawRule state).lexer.current.kind =
        false := by
  rw [climb] at hquiet ⊢
  have hdraw := draw_nested_of_quiet hquiet
  rw [hdraw] at hquiet ⊢
  have hhead := quiet_of_chain hquiet
  have hmade := h.makes .unary _ hhead
  obtain ⟨hverdict, kind, slot, children, hshapes, hkind⟩ := hmade
  have hgrouped := h.grouped .unary _ hhead
  rw [hshapes] at hgrouped
  have hnone := Shape.levelOf?_eq_none (KindSet.not_contains_of_isDisjoint
    (show (results .unary).isDisjoint operations = true by decide) hkind) children
  have hfield (operator : Kind) :
      (if operator = .question then Field.condition else .left) = .left ∨
        (if operator = .question then Field.condition else .left) = .condition := by
    split
    · exact Or.inr rfl
    · exact Or.inl rfl
  have hoperand (lexer : Lexer) : IsOperand least lexer (.node kind slot children) := by
    refine ⟨hgrouped.1, kind, slot, children, rfl, ?_⟩
    intro q hq
    rw [hnone] at hq
    cases hq
  obtain ⟨last, -, hlast, hoperand, hend⟩ :=
    chain_induction (IsOperand least) hquiet hverdict hshapes (hoperand _)
      (fun state _ _ hoperand _ hstep hchose =>
        h.isOperand_operation hoperand hstep hchose (hfield state.kind))
  exact ⟨last, hlast, hoperand, hend⟩

/-- The rules that do not climb group by themselves. -/
theorem groups_grammar {rule : Rule} (hsuffixed : rule ≠ .suffixed)
    (hexpression : ∀ least, rule ≠ .expression least) :
    (grammar rule).groups results = true := by
  cases rule with
  | suffixed => exact absurd rfl hsuffixed
  | expression least => exact absurd rfl (hexpression least)
  | _ => decide +kernel

/-- What is known about the rules in progress is known about the rules that call them. -/
theorem Climbs.succ (h : Climbs drawRule)
    (hmakes : RulesMake results fun rule => (grammar rule).draw drawRule) :
    Climbs fun rule => (grammar rule).draw drawRule := by
  refine ⟨hmakes, ?_, stops_unary h.unary h.suffixed, stops_suffixed h.makes, ?_⟩
  · intro rule state hquiet
    by_cases hsuffixed : rule = .suffixed
    · subst hsuffixed
      exact h.grouped_suffixed hquiet
    by_cases hexpression : ∃ least, rule = .expression least
    · obtain ⟨least, rfl⟩ := hexpression
      obtain ⟨shape, hshapes, hoperand, -⟩ := h.isOperand_climb least hquiet
      dsimp only [grammar]
      rw [hshapes]
      exact ⟨hoperand.1, trivial⟩
    · exact grouped_of_groups h.makes h.grouped
        (groups_grammar hsuffixed fun least he => hexpression ⟨least, he⟩) hquiet
  · intro least state hquiet
    obtain ⟨shape, hshapes, ⟨-, kind, slot, children, rfl, hlevel⟩, hends⟩ :=
      h.isOperand_climb least hquiet
    refine ⟨hends, ?_⟩
    intro inner slot' below q hmem hq
    dsimp only [grammar] at hmem
    rw [hshapes, List.mem_singleton] at hmem
    injection hmem with hinner _ hbelow
    rw [hinner, hbelow] at hq
    exact (hlevel q hq).1

theorem climbs_drawRule (budget : Nat) : Climbs (Phrase.drawRule grammar budget) := by
  induction budget with
  | zero =>
    -- Without budget a rule breaks its use, so it is never quiet.
    have hnot {rule : Rule} {state : ParseState}
        (hquiet : Quiet (Phrase.drawRule grammar 0 rule state)) : False :=
      Bool.noConfusion hquiet.kept
    exact ⟨fun _ _ hquiet => (hnot hquiet).elim, fun _ _ hquiet => (hnot hquiet).elim,
      fun _ hquiet => (hnot hquiet).elim, fun _ hquiet => (hnot hquiet).elim,
      fun _ _ hquiet => (hnot hquiet).elim⟩
  | succ budget ih => exact ih.succ (rulesMake_drawRule (budget + 1))

/-- Operands of a file without reports are ones that their operators allow. -/
theorem grouped_fileShape {text : String} {limit : Nat}
    (h : (fileReading text limit).reports = []) :
    (fileShape text limit).All Shape.Grouped := by
  have hclimbs := climbs_drawRule (ruleBudget limit)
  have hquiet : Quiet (fileReading text limit) := ⟨(covers_fileReading text limit).keeps, h⟩
  have hitems := grouped_of_groups hclimbs.makes hclimbs.grouped
    (show fileItems.groups results = true by decide) hquiet
  refine ⟨?_, Shape.allOf_append.mpr ⟨hitems, trivial, trivial⟩⟩
  apply Shape.grouped_of_not_operation (by decide)
  · exact fun hin => absurd hin (by decide)
  · exact fun hin => absurd hin (by decide)

end Grammar

end ScriptTree

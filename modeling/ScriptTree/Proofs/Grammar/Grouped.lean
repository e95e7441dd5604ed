import ScriptTree.Proofs.Parser.Slots
import ScriptTree.Proofs.Precedence
import ScriptTree.Proofs.Tree.Shown

/-!
Grouping: operations stand as operands only where their level allows it. The condition is on each
node and its children. Most phrases of the grammar meet it whatever they read, which is told from
the phrase; the climbing of levels and the chain of suffixes are left to `Grammar.Climb`.
-/

namespace ScriptTree

namespace Grammar

def operations : KindSet :=
  .ofList [.binaryExpr, .assignmentExpr, .conditionalExpr]

def prefixes : KindSet :=
  .ofList [.prefixExpr, .castExpr, .classCastExpr]

def suffixes : KindSet :=
  .ofList [.callExpr, .indexExpr, .memberExpr, .scopeExpr, .postfixExpr]

def baseSlots : List Field :=
  [.function, .object, .scope, .operand]

end Grammar

namespace Shape

open Grammar

def operator? : List Shape → Option Kind
  | [] => none
  | .leaf token field :: rest => if field = some .operator then some token.kind else operator? rest
  | .node _ _ _ :: rest => operator? rest

def levelOf? (kind : Kind) (children : List Shape) : Option Precedence :=
  if kind = .conditionalExpr then some .conditional
  else if kind = .binaryExpr ∨ kind = .assignmentExpr then
    (operator? children).bind Precedence.ofBinary?
  else none

/-- The operands of a node are ones that its level, or its place before or behind them, allows. -/
structure Grouped (kind : Kind) (children : List Shape) : Prop where
  level : operations.contains kind = true → ∃ p, levelOf? kind children = some p
  left : ∀ p q slot inner below, levelOf? kind children = some p →
    .node inner (some slot) below ∈ children → slot = .left ∨ slot = .condition →
    levelOf? inner below = some q → p.HoldsLeft q
  right : ∀ p q slot inner below, levelOf? kind children = some p →
    .node inner (some slot) below ∈ children → slot = .right ∨ slot = .alternative →
    levelOf? inner below = some q → p.HoldsRight q
  operand : prefixes.contains kind = true → ∀ inner below,
    .node inner (some .operand) below ∈ children → operations.contains inner = false
  base : suffixes.contains kind = true → ∀ slot ∈ baseSlots, ∀ inner below,
    .node inner (some slot) below ∈ children →
    operations.contains inner = false ∧ prefixes.contains inner = false

theorem levelOf?_eq_none {kind : Kind} (h : operations.contains kind = false)
    (children : List Shape) : levelOf? kind children = none := by
  rw [Bool.eq_false_iff] at h
  simp only [operations, ne_eq, KindSet.contains_ofList, List.mem_cons, List.not_mem_nil,
    or_false, not_or] at h
  obtain ⟨hbinary, hassignment, hconditional⟩ := h
  rw [levelOf?, if_neg hconditional, if_neg (not_or.mpr ⟨hbinary, hassignment⟩)]

/-- A node that is no operation has to look after its operand only. -/
theorem grouped_of_not_operation {kind : Kind} {children : List Shape}
    (h : operations.contains kind = false)
    (hoperand : prefixes.contains kind = true → ∀ inner below,
      .node inner (some .operand) below ∈ children → operations.contains inner = false)
    (hbase : suffixes.contains kind = true → ∀ slot ∈ baseSlots, ∀ inner below,
      .node inner (some slot) below ∈ children →
      operations.contains inner = false ∧ prefixes.contains inner = false) :
    Grouped kind children := by
  have hnone := levelOf?_eq_none h children
  refine ⟨?_, ?_, ?_, hoperand, hbase⟩
  · intro hin
    rw [h] at hin
    cases hin
  · intro p q slot inner below hp
    rw [hnone] at hp
    cases hp
  · intro p q slot inner below hp
    rw [hnone] at hp
    cases hp

end Shape

namespace Phrase

open ParseState Reading Grammar

variable {Rule : Type} {drawRule : Rule → ParseState → Reading} {results : Rule → KindSet}

def sparesOperands (results : Rule → KindSet) (body : Phrase Rule) : Bool :=
  body.chosen.isDisjoint operations &&
  (body.chosen.isDisjoint prefixes || (body.held results .operand).isDisjoint operations) &&
  (body.chosen.isDisjoint suffixes ||
    baseSlots.all fun slot => (body.held results slot).isDisjoint (operations.union prefixes))

/-- The operands of a node that such a phrase settles are ones that the node allows. -/
theorem grouped_of_spares (hrules : RulesMake results drawRule) {body : Phrase Rule}
    (h : body.sparesOperands results = true) {state : ParseState}
    (hquiet : Quiet (body.draw drawRule state)) {kind : Kind}
    (hkind : body.chosen.contains kind = true) :
    Shape.Grouped kind (body.draw drawRule state).shapes := by
  simp only [sparesOperands, Bool.and_eq_true, Bool.or_eq_true, List.all_eq_true] at h
  obtain ⟨⟨hnone, hoperand⟩, hbase⟩ := h
  apply Shape.grouped_of_not_operation (KindSet.not_contains_of_isDisjoint hnone hkind)
  · intro hin inner below hmem
    have hheld := hoperand.resolve_left fun hd => by
      rw [KindSet.not_contains_of_isDisjoint hd hkind] at hin
      cases hin
    exact KindSet.not_contains_of_isDisjoint hheld (contains_held hrules hquiet hmem)
  · intro hin slot hslot inner below hmem
    have hheld := hbase.resolve_left fun hd => by
      rw [KindSet.not_contains_of_isDisjoint hd hkind] at hin
      cases hin
    have hfree := KindSet.not_contains_of_isDisjoint (hheld slot hslot)
      (contains_held hrules hquiet hmem)
    rw [KindSet.contains_union, Bool.or_eq_false_iff] at hfree
    exact hfree

def groups (results : Rule → KindSet) : Phrase Rule → Bool
  | .node body => body.groups results && body.sparesOperands results
  | .chain head _ _ body =>
    head.groups results && body.groups results && (head.made results).isSome &&
      body.chosen.isDisjoint (operations.union (prefixes.union suffixes))
  | .seq first second | .both first second => first.groups results && second.groups results
  | .branch _ yes no | .look _ yes no => yes.groups results && no.groups results
  | .attempt body yes no => body.groups results && yes.groups results && no.groups results
  | .loop _ body | .slot _ body | .recover body | .absorb body | .nested body =>
    body.groups results
  | _ => true

/-- What holds of all nodes of every round holds of those of a loop. -/
theorem allOf_drawLoop {holds : Kind → List Shape → Prop} {test : ParseState → Bool}
    {step : ParseState → Reading}
    (hstep : ∀ state, Quiet (step state) → Shape.AllOf holds (step state).shapes)
    {state : ParseState} {limit : Nat} (hquiet : Quiet (drawLoop test step state limit)) :
    Shape.AllOf holds (drawLoop test step state limit).shapes := by
  induction limit generalizing state with
  | zero => exact trivial
  | succ limit ih =>
    simp only [drawLoop] at hquiet ⊢
    by_cases ht : test state = true
    · rw [if_pos ht] at hquiet ⊢
      split at hquiet
      · next hv =>
        rw [if_pos hv]
        exact hstep state ⟨hquiet.kept, hquiet.silent⟩
      · next hv =>
        rw [if_neg hv]
        obtain ⟨hfirst, hrest⟩ := hquiet.of_andThen
        exact Shape.allOf_append.mpr ⟨hstep state hfirst, ih hrest⟩
    · rw [if_neg ht]
      exact trivial

/-- The tokens of a malformed element are no operands. -/
theorem grouped_skipped (state : ParseState) (dropped : Reading) :
    Shape.AllOf Shape.Grouped (skipped state dropped).shapes := by
  have hleaves : ∀ events : List Event,
      Shape.AllOf Shape.Grouped (events.filterMap Event.leaf?) := by
    intro events
    rw [Shape.allOf_iff]
    intro shape hmem
    obtain ⟨event, -, hleaf⟩ := List.mem_filterMap.mp hmem
    cases event with
    | token held field =>
      obtain rfl := Option.some.inj hleaf
      exact trivial
    | _ => cases hleaf
  refine ⟨⟨?_, hleaves _⟩, trivial⟩
  apply Shape.grouped_of_not_operation (by decide)
  · exact fun h => absurd h (by decide)
  · exact fun h => absurd h (by decide)

theorem allOf_taken {holds : Kind → List Shape → Prop} (state : ParseState)
    (field : Option Field) : Shape.AllOf holds (taken state field).shapes := by
  unfold taken
  split
  · exact trivial
  · exact ⟨trivial, trivial⟩

/-- Quiet readings of a phrase that groups by itself, over rules whose readings are grouped. -/
theorem grouped_of_groups (hrules : RulesMake results drawRule)
    (hgrouped : ∀ rule state, Quiet (drawRule rule state) →
      Shape.AllOf Shape.Grouped (drawRule rule state).shapes)
    {phrase : Phrase Rule} (h : phrase.groups results = true) {state : ParseState}
    (hquiet : Quiet (phrase.draw drawRule state)) :
    Shape.AllOf Shape.Grouped (phrase.draw drawRule state).shapes := by
  induction phrase generalizing state with
  | call rule => exact hgrouped rule state hquiet
  | take field => exact allOf_taken state field
  | expect kind field =>
    simp only [draw]
    split
    · exact allOf_taken state field
    · exact trivial
  | close kind =>
    simp only [draw]
    split
    · exact allOf_taken state none
    · exact trivial
  | seq first second ih ih' =>
    obtain ⟨hf, hs⟩ := (Bool.and_eq_true _ _).mp h
    obtain ⟨hfirst, hsecond⟩ := hquiet.of_andThen
    exact Shape.allOf_append.mpr ⟨ih hf hfirst, ih' hs hsecond⟩
  | both first second ih ih' =>
    obtain ⟨hf, hs⟩ := (Bool.and_eq_true _ _).mp h
    simp only [draw] at hquiet ⊢
    split at hquiet
    · next hv =>
      rw [if_pos hv]
      exact ih hf hquiet
    · next hv =>
      rw [if_neg hv]
      -- each of the two is quiet where both together are
      obtain ⟨hfirst, hsecond⟩ := hquiet.of_andThen
      exact Shape.allOf_append.mpr ⟨ih hf hfirst, ih' hs hsecond⟩
  | branch test yes no ih ih' =>
    obtain ⟨hy, hn⟩ := (Bool.and_eq_true _ _).mp h
    simp only [draw] at hquiet ⊢
    split at hquiet
    · next ht =>
      rw [if_pos ht]
      exact ih hy hquiet
    · next ht =>
      rw [if_neg ht]
      exact ih' hn hquiet
  | look probe yes no _ ih ih' =>
    obtain ⟨hy, hn⟩ := (Bool.and_eq_true _ _).mp h
    simp only [draw] at hquiet ⊢
    split at hquiet
    · next hc =>
      rw [if_pos hc]
      exact ih hy hquiet.of_instead
    · next hc =>
      rw [if_neg hc]
      exact ih' hn hquiet.of_instead
  | attempt body yes no ihb ih ih' =>
    simp only [groups, Bool.and_eq_true] at h
    obtain ⟨⟨hb, hy⟩, hn⟩ := h
    simp only [draw] at hquiet ⊢
    split at hquiet
    · next hc =>
      rw [if_pos hc]
      obtain ⟨hfirst, hsecond⟩ := hquiet.of_andThen
      exact Shape.allOf_append.mpr ⟨ihb hb hfirst, ih hy hsecond⟩
    · next hc =>
      rw [if_neg hc]
      exact ih' hn hquiet.of_instead
  | loop test body ih => exact allOf_drawLoop (fun _ => ih h) hquiet
  | slot field body ih =>
    have hbody := ih h hquiet.of_fill
    simp only [draw, Reading.fill]
    split
    · exact (Shape.allOf_fillLast _ _).mpr hbody
    · exact hbody
  | recover element ih =>
    simp only [draw] at hquiet ⊢
    split at hquiet
    · next hz =>
      rw [if_pos hz]
      exact ih h ⟨hquiet.kept, hquiet.silent⟩
    · next hz =>
      rw [if_neg hz]
      exact grouped_skipped _ _
  | absorb body ih => exact ih h ⟨hquiet.kept, hquiet.silent⟩
  | nested body ih =>
    -- at the limit there would be a report
    have hdraw := draw_nested_of_quiet hquiet
    rw [hdraw] at hquiet ⊢
    exact ih h hquiet
  | node body ih =>
    obtain ⟨hg, hs⟩ := (Bool.and_eq_true _ _).mp h
    have hbody : Quiet (body.draw drawRule state) := Quiet.of_close hquiet
    have hall := ih hg hbody
    simp only [draw, Reading.close]
    split
    · next kind hverdict =>
      have hkind := contains_chosen hrules hbody hverdict
      exact ⟨⟨grouped_of_spares hrules hs hbody hkind, hall⟩, trivial⟩
    · exact hall
  | chain head test field body ih ih' =>
    simp only [groups, Bool.and_eq_true, Option.isSome_iff_exists] at h
    obtain ⟨⟨⟨hh, hb⟩, kinds, hmade⟩, hfree⟩ := h
    have hhead := quiet_of_chain hquiet
    have hall := ih hh hhead
    obtain ⟨hverdict, kind, slot, children, hshapes, -⟩ := makes_of_made hrules hmade hhead
    rw [hshapes] at hall
    -- The nodes of the chain are none that the condition speaks about.
    have hround : ∀ kind, body.chosen.contains kind = true → ∀ children : List Shape,
        Shape.Grouped kind children := by
      intro kind hkind children
      have hnone := KindSet.not_contains_of_isDisjoint hfree hkind
      simp only [KindSet.contains_union, Bool.or_eq_false_iff] at hnone
      obtain ⟨hoperation, hfront, hsuffix⟩ := hnone
      apply Shape.grouped_of_not_operation hoperation
      · intro hin
        rw [hfront] at hin
        cases hin
      · intro hin
        rw [hsuffix] at hin
        cases hin
    obtain ⟨last, -, hlast, hgroups, -⟩ :=
      chain_induction (fun _ shape => shape.All Shape.Grouped) hquiet hverdict hshapes hall.1
        (fun _ _ kind hshape _ hstep hchose =>
          ⟨hround kind (contains_chosen hrules hstep hchose) _,
            (Shape.all_withField _ _).mpr hshape, ih' hb hstep⟩)
    rw [hlast]
    exact ⟨hgroups, trivial⟩
  | _ => exact trivial

end Phrase

end ScriptTree

import ScriptTree.Proofs.Parser.Calls
import ScriptTree.Proofs.Parser.Quiet

/-!
How deep the nodes that a phrase makes lie in each other. Nodes of some kinds are put around a first
operand that has been read before them, and however many of them are put around each other, the
parse is no deeper for that. All other nodes are made by phrases that are in progress at once.
-/

namespace ScriptTree

namespace Shape

variable (chained : KindSet)

mutual

def nesting : Shape → Nat
  | .leaf _ _ => 0
  | .node kind _ children =>
    if chained.contains kind then nestingBehind children else nestingAll children + 1

def nestingAll : List Shape → Nat
  | [] => 0
  | shape :: rest => max shape.nesting (nestingAll rest)

def nestingBehind : List Shape → Nat
  | [] => 1
  | first :: rest => max first.nesting (nestingAll rest + 1)

end

@[simp] theorem nestingAll_nil : nestingAll chained [] = 0 := by
  rw [nestingAll]

@[simp] theorem nestingAll_singleton (shape : Shape) :
    nestingAll chained [shape] = shape.nesting chained := by
  simp [nestingAll]

@[simp] theorem nestingAll_append (xs ys : List Shape) :
    nestingAll chained (xs ++ ys) = max (nestingAll chained xs) (nestingAll chained ys) := by
  induction xs with
  | nil => simp
  | cons shape rest ih => simp only [List.cons_append, nestingAll, ih, Nat.max_assoc]

theorem nestingAll_le_iff {bound : Nat} {shapes : List Shape} :
    nestingAll chained shapes ≤ bound ↔ ∀ shape ∈ shapes, shape.nesting chained ≤ bound := by
  induction shapes with
  | nil => simp
  | cons shape rest ih => simp [nestingAll, ih]

/-- A node is at most one deeper than its children. -/
theorem nesting_node_le (kind : Kind) (field : Option Field) (children : List Shape) :
    (node kind field children).nesting chained ≤ nestingAll chained children + 1 := by
  rw [nesting]
  split
  · cases children with
    | nil => simp [nestingBehind]
    | cons first rest =>
      rw [nestingBehind, nestingAll]
      omega
  · exact Nat.le_refl _

/-- A node of a chained kind is not deeper than its first child, and one deeper than the others. -/
theorem nesting_chained_le {kind : Kind} (h : chained.contains kind = true) (field : Option Field)
    (front : Option Shape) (children : List Shape) :
    (node kind field (front.toList ++ children)).nesting chained ≤
      max (nestingAll chained front.toList) (nestingAll chained children + 1) := by
  cases front with
  | none => exact Nat.le_trans (nesting_node_le chained kind field children) (Nat.le_max_right _ _)
  | some first => rw [nesting, if_pos h, Option.toList_some, List.singleton_append, nestingBehind,
      nestingAll_singleton]

@[simp] theorem nesting_withField (field : Field) (shape : Shape) :
    (shape.withField field).nesting chained = shape.nesting chained := by
  cases shape <;> simp [withField, nesting]

@[simp] theorem nestingAll_fillLast (field : Field) (shapes : List Shape) :
    nestingAll chained (fillLast field shapes) = nestingAll chained shapes := by
  induction shapes with
  | nil => rfl
  | cons shape rest ih => cases rest <;> simp_all [fillLast, nestingAll]

end Shape

def Phrase.opensNode {Rule : Type} : Phrase Rule → Bool
  | .node _ | .chain _ _ _ _ | .recover _ => true
  | _ => false

def Phrase.chainsInto {Rule : Type} (chained : KindSet) : Phrase Rule → Bool
  | .chain head _ _ body =>
    body.chosen.isSubset chained && head.chainsInto chained && body.chainsInto chained
  | .seq first second | .both first second | .branch _ first second | .blame first second =>
    first.chainsInto chained && second.chainsInto chained
  | .look first second third | .attempt first second third =>
    first.chainsInto chained && second.chainsInto chained && third.chainsInto chained
  | .loop _ body | .node body | .slot _ body | .recover body | .absorb body | .nested body =>
    body.chainsInto chained
  | _ => true

namespace Phrase

open ParseState Reading Shape

variable {Rule : Type} {chained : KindSet} {bound : Nat}

theorem nestingAll_fill (reading : Reading) (field : Field) :
    nestingAll chained (reading.fill field).shapes = nestingAll chained reading.shapes := by
  unfold Reading.fill
  split
  · exact nestingAll_fillLast chained field _
  · rfl

theorem nestingAll_close_le (chained : KindSet) (reading : Reading) :
    nestingAll chained reading.close.shapes ≤ nestingAll chained reading.shapes + 1 := by
  unfold Reading.close
  split
  · rw [nestingAll_singleton]
    exact nesting_node_le _ _ _ _
  · exact Nat.le_succ _

/-- A node around others goes one level deeper than its body, but no deeper than the chain so far,
which it continues. -/
theorem nestingAll_wrap_le {reading body : Reading}
    (hreading : nestingAll chained reading.shapes ≤ bound)
    (hbody : nestingAll chained body.shapes + 1 ≤ bound)
    (hkind : ∀ kind, body.verdict = .chose kind → chained.contains kind = true) :
    nestingAll chained (reading.wrap body).shapes ≤ bound := by
  unfold Reading.wrap
  split
  · next kind hchose =>
    have hlast := nesting_chained_le chained (hkind kind hchose) none reading.shapes.getLast?
      body.shapes
    rw [nestingAll_le_iff] at hreading
    have hfront : nestingAll chained reading.shapes.getLast?.toList ≤ bound := by
      rw [nestingAll_le_iff]
      intro shape hmem
      exact hreading shape (List.mem_of_getLast? (Option.mem_toList.mp hmem))
    rw [nestingAll_append, nestingAll_singleton, Nat.max_le]
    refine ⟨?_, by omega⟩
    rw [nestingAll_le_iff]
    exact fun shape hmem => hreading shape (List.dropLast_subset _ hmem)
  · simp only [andThen, nestingAll_append, Nat.max_le]
    omega

/-- By induction on the rounds, which lie side by side. -/
theorem nestingAll_drawLoop_le {test : ParseState → Bool} {step : ParseState → Reading}
    {state : ParseState}
    (h : ∀ lexer, nestingAll chained (step (state.moveTo lexer)).shapes ≤ bound) (limit : Nat) :
    nestingAll chained (drawLoop test step state limit).shapes ≤ bound := by
  induction limit generalizing state with
  | zero => simp [drawLoop, stay]
  | succ limit ih =>
    have hstep := h state.lexer
    have hrest : nestingAll chained
        (drawLoop test step (state.moveTo (step state).lexer) limit).shapes ≤ bound := ih h
    simp only [drawLoop]
    split
    · split
      · exact hstep
      · simp only [andThen, nestingAll_append, Nat.max_le]
        exact ⟨hstep, hrest⟩
    · simp [stay]

/-- By induction on the rounds. The rounds themselves count for nothing, however many there are. -/
theorem nestingAll_drawChain_le {test : ParseState → Bool} {field : Kind → Field}
    {step : ParseState → Reading} {state : ParseState} {reading : Reading}
    (hreading : nestingAll chained reading.shapes ≤ bound)
    (h : ∀ lexer, nestingAll chained (step (state.moveTo lexer)).shapes + 1 ≤ bound)
    (hkind : ∀ lexer kind, (step (state.moveTo lexer)).verdict = .chose kind →
      chained.contains kind = true) (limit : Nat) :
    nestingAll chained (drawChain test field step state reading limit).shapes ≤ bound := by
  induction limit generalizing state reading with
  | zero => exact hreading
  | succ limit ih =>
    simp only [drawChain]
    split
    · have hwrap := nestingAll_wrap_le
        (Nat.le_trans (Nat.le_of_eq (nestingAll_fill reading
          (field (state.moveTo reading.lexer).kind))) hreading)
        (h reading.lexer) (hkind reading.lexer)
      split
      · exact hwrap
      · exact ih hwrap h hkind
    · exact hreading

theorem nestingAll_skipped_le (chained : KindSet) (state : ParseState) (dropped : Reading) :
    nestingAll chained (skipped state dropped).shapes ≤ 1 := by
  rw [skipped, nestingAll_singleton]
  refine Nat.le_trans (nesting_node_le _ _ _ _) (Nat.succ_le_succ ?_)
  rw [nestingAll_le_iff]
  intro shape hmem
  obtain ⟨event, -, hevent⟩ := List.mem_filterMap.mp hmem
  cases event <;> cases hevent
  simp [nesting]

variable {grammar : Rule → Phrase Rule} {drawRule : Rule → ParseState → Reading}

/-- No rule settles the kind of the node around it. -/
theorem drawRule_ne_chose (h : ∀ rule, (grammar rule).chosen = .empty) (budget : Nat) (rule : Rule)
    (state : ParseState) (kind : Kind) :
    (Phrase.drawRule grammar budget rule state).verdict ≠ .chose kind := by
  induction budget generalizing rule state with
  | zero => exact nofun
  | succ budget ih =>
    intro hchose
    rcases contains_chosen_or hchose with hkind | ⟨rule', state', hrule, -⟩
    · rw [h rule, KindSet.contains_empty] at hkind
      cases hkind
    · exact ih rule' state' hrule

/-- A phrase makes nodes that lie no deeper in each other than phrases that make nodes are in
progress at once. -/
theorem nestingAll_draw_le {loads : Loads grammar opensNode}
    (hrules : ∀ rule state, nestingAll chained (drawRule rule state).shapes ≤
      loads.calls rule + loads.bound * (state.limit - state.depth))
    (hchose : ∀ rule state kind, (drawRule rule state).verdict ≠ .chose kind)
    {phrase : Phrase Rule} (hkeeps : phrase.keepsLoad opensNode loads.calls loads.bound = true)
    (hchains : phrase.chainsInto chained = true) (state : ParseState) :
    nestingAll chained (phrase.draw drawRule state).shapes ≤
      phrase.load opensNode loads.calls + loads.bound * (state.limit - state.depth) := by
  induction phrase generalizing state with
  | seq first second ih ih' =>
    simp only [keepsLoad, chainsInto, Bool.and_eq_true] at hkeeps hchains
    have hfirst := ih hkeeps.1 hchains.1 state
    have hsecond := ih' hkeeps.2 hchains.2 (state.moveTo (first.draw drawRule state).lexer)
    simp only [draw, andThen, nestingAll_append, load, Nat.max_le]
    exact ⟨by omega, Nat.le_trans hsecond (by simp only [moveTo]; omega)⟩
  | both first second ih ih' =>
    simp only [keepsLoad, chainsInto, Bool.and_eq_true] at hkeeps hchains
    have hfirst := ih hkeeps.1 hchains.1 state
    have hsecond := ih' hkeeps.2 hchains.2 (state.moveTo (first.draw drawRule state).lexer)
    simp only [draw, load]
    split
    · omega
    · simp only [andThen, nestingAll_append, Nat.max_le]
      exact ⟨by omega, Nat.le_trans hsecond (by simp only [moveTo]; omega)⟩
  | branch test yes no ih ih' =>
    simp only [keepsLoad, chainsInto, Bool.and_eq_true] at hkeeps hchains
    have hyes := ih hkeeps.1 hchains.1 state
    have hno := ih' hkeeps.2 hchains.2 state
    simp only [draw, load]
    split <;> omega
  | loop test body ih =>
    simp only [draw, load]
    refine nestingAll_drawLoop_le (fun lexer => ?_) _
    exact Nat.le_trans (ih hkeeps hchains (state.moveTo lexer)) (by simp only [moveTo]; omega)
  | node body ih =>
    have hbody := ih hkeeps hchains state
    -- the node is the one level that opening it was counted for
    have hclose := nestingAll_close_le chained (body.draw drawRule state)
    simp only [draw, load, opensNode, Bool.toNat_true]
    omega
  | slot field body ih =>
    have hbody := ih hkeeps hchains state
    simp only [draw, nestingAll_fill, load]
    omega
  | chain head test field body ih ih' =>
    simp only [keepsLoad, chainsInto, Bool.and_eq_true] at hkeeps hchains
    have hhead := ih hkeeps.1 hchains.1.2 state
    simp only [draw, load, opensNode, Bool.toNat_true]
    split
    · -- a round counts for its own level and body, and for none of the rounds before it
      refine nestingAll_drawChain_le (by omega) (fun lexer => ?_) (fun lexer kind hkind => ?_) _
      · have hbody := ih' hkeeps.2 hchains.2 (state.moveTo lexer)
        simp only [moveTo] at hbody
        exact Nat.le_trans (Nat.succ_le_succ hbody) (by omega)
      · rcases contains_chosen_or hkind with hkind | ⟨rule, state', hrule, -⟩
        · exact KindSet.contains_of_isSubset hchains.1.1 hkind
        · exact absurd hrule (hchose rule state' kind)
    · show nestingAll chained (head.draw drawRule state).shapes ≤ _
      omega
  | look probe yes no _ ih ih' =>
    simp only [keepsLoad, chainsInto, Bool.and_eq_true] at hkeeps hchains
    have hyes := ih hkeeps.1.2 hchains.1.2 state
    have hno := ih' hkeeps.2 hchains.2 state
    simp only [draw, instead, load]
    split <;> omega
  | attempt body yes no ih ih' ih'' =>
    simp only [keepsLoad, chainsInto, Bool.and_eq_true] at hkeeps hchains
    have hbody := ih hkeeps.1.1 hchains.1.1 state
    have hyes := ih' hkeeps.1.2 hchains.1.2 (state.moveTo (body.draw drawRule state).lexer)
    have hno := ih'' hkeeps.2 hchains.2 state
    simp only [draw, load]
    split
    · simp only [andThen, nestingAll_append, Nat.max_le]
      exact ⟨by omega, Nat.le_trans hyes (by simp only [moveTo]; omega)⟩
    · simp only [instead]
      omega
  | recover element ih =>
    have helement := ih hkeeps hchains state
    have hskipped := nestingAll_skipped_le chained state (element.draw drawRule state)
    simp only [draw, load, opensNode, Bool.toNat_true]
    split
    · show nestingAll chained (element.draw drawRule state).shapes ≤ _
      omega
    · omega
  | absorb body ih =>
    have hbody := ih hkeeps hchains state
    simp only [draw, load]
    omega
  | nested body ih =>
    simp only [keepsLoad, Bool.and_eq_true, decide_eq_true_eq] at hkeeps
    simp only [draw, load, opensNode, Bool.toNat_false, Nat.zero_add]
    split
    · simp [failing, stay]
    · next hroom =>
      -- the level that is entered makes up for the whole height of the body
      have hbody := ih hkeeps.2 hchains { state with depth := state.depth + 1 }
      have hlevels : state.limit - state.depth = state.limit - (state.depth + 1) + 1 := by omega
      rw [hlevels, Nat.mul_add, Nat.mul_one]
      exact Nat.le_trans hbody (by simp only; omega)
  | call rule =>
    have hrule := hrules rule state
    simp only [draw, load]
    omega
  | take field =>
    simp only [draw, taken]
    split <;> simp [stay, nesting]
  | expect kind field =>
    simp only [draw, taken]
    repeat' split
    all_goals simp [failing, stay, nesting]
  | close kind =>
    simp only [draw, taken]
    repeat' split
    all_goals simp [stay, nesting]
  | _ => simp [draw, failing, stay]

/-- So does a rule. -/
theorem nestingAll_drawRule_le (loads : Loads grammar opensNode)
    (hchains : ∀ rule, (grammar rule).chainsInto chained = true)
    (hchose : ∀ rule, (grammar rule).chosen = .empty) (budget : Nat) (rule : Rule)
    (state : ParseState) :
    nestingAll chained (Phrase.drawRule grammar budget rule state).shapes ≤
      loads.calls rule + loads.bound * (state.limit - state.depth) := by
  induction budget generalizing rule state with
  | zero => simp [Phrase.drawRule, stay]
  | succ budget ih =>
    have hrule := loads.rules rule
    simp only [Bool.and_eq_true, decide_eq_true_eq] at hrule
    have hdraw := nestingAll_draw_le ih (drawRule_ne_chose hchose budget) hrule.2 (hchains rule)
      state
    exact Nat.le_trans hdraw (Nat.add_le_add_right hrule.1 _)

end Phrase

end ScriptTree

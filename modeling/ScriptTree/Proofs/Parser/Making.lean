import ScriptTree.Proofs.Parser.Tidy
import ScriptTree.Proofs.Tree.Shown

/-!
The kinds of nodes. Nodes are made where a phrase settles a kind and where an element is skipped, so
the kinds that a grammar settles are the kinds of all its nodes.
-/

namespace ScriptTree

namespace Phrase

variable {Rule : Type}

def makesOnly (made : Kind → Bool) : Phrase Rule → Bool
  | .choose kind => made kind
  | .seq first second | .both first second => first.makesOnly made && second.makesOnly made
  | .branch _ yes no | .look _ yes no => yes.makesOnly made && no.makesOnly made
  | .chain head _ _ body => head.makesOnly made && body.makesOnly made
  | .attempt body yes no => body.makesOnly made && yes.makesOnly made && no.makesOnly made
  | .loop _ body | .node body | .slot _ body | .recover body | .absorb body | .nested body =>
    body.makesOnly made
  | _ => true

end Phrase

structure Reading.MadeOf (made : Kind → Bool) (reading : Reading) : Prop where
  nodes : Shape.AllOf (fun kind _ => made kind = true) reading.shapes
  around : ∀ kind, reading.verdict = .chose kind → made kind = true

namespace Reading

open ParseState

variable {made : Kind → Bool}

theorem madeOf_nothing {reading : Reading} (hs : reading.shapes = [])
    (hv : ∀ kind, reading.verdict ≠ .chose kind) : MadeOf made reading :=
  ⟨by simp [hs, Shape.AllOf], fun kind h => absurd h (hv kind)⟩

theorem madeOf_taken (state : ParseState) (field : Option Field) :
    MadeOf made (taken state field) := by
  refine ⟨?_, fun kind h => Verdict.noConfusion ((verdict_taken state field).symm.trans h)⟩
  unfold taken
  split
  · trivial
  · exact ⟨trivial, trivial⟩

theorem MadeOf.andThen {first second : Reading} (h : MadeOf made first)
    (h' : MadeOf made second) : MadeOf made (first.andThen second) :=
  ⟨Shape.allOf_append.mpr ⟨h.nodes, h'.nodes⟩, h'.around⟩

theorem MadeOf.close {reading : Reading} (h : MadeOf made reading) :
    MadeOf made reading.close := by
  unfold Reading.close
  split
  · next kind hv => exact ⟨⟨⟨h.around kind hv, h.nodes⟩, trivial⟩, fun _ => Verdict.noConfusion⟩
  · exact ⟨h.nodes, fun _ => Verdict.noConfusion⟩

theorem MadeOf.fill {reading : Reading} (h : MadeOf made reading) (field : Field) :
    MadeOf made (reading.fill field) := by
  by_cases hv : reading.verdict = .node
  · rw [fill_of_node hv]
    exact ⟨(Shape.allOf_fillLast field _).mpr h.nodes, h.around⟩
  · rwa [fill_of_ne_node hv]

/-- A node around others is made by the body that settles its kind. -/
theorem MadeOf.wrap {reading body : Reading} (h : MadeOf made reading)
    (hb : MadeOf made body) : MadeOf made (reading.wrap body) := by
  have hnodes := Shape.allOf_iff.mp h.nodes
  unfold Reading.wrap
  split
  · next kind hv =>
    refine ⟨Shape.allOf_append.mpr ⟨?_, ⟨hb.around kind hv, ?_⟩, trivial⟩,
      fun _ => Verdict.noConfusion⟩
    · exact Shape.allOf_iff.mpr fun shape hmem => hnodes shape (List.dropLast_subset _ hmem)
    · refine Shape.allOf_append.mpr ⟨?_, hb.nodes⟩
      exact Shape.allOf_iff.mpr fun shape hmem =>
        hnodes shape (List.mem_of_getLast? (Option.mem_toList.mp hmem))
  · exact ⟨(h.andThen hb).nodes, hb.around⟩

/-- A skipped element is an error node. -/
theorem madeOf_skipped (herror : made .error = true) (state : ParseState) (dropped : Reading) :
    MadeOf made (skipped state dropped) := by
  obtain ⟨tokens, last, hs, _⟩ := skips_skipElement state.lexer 0 true state.rounds
  rw [skipped_eq state dropped hs]
  exact ⟨⟨⟨herror, Shape.allOf_leaves _ tokens _⟩, trivial⟩, fun _ => Verdict.noConfusion⟩

end Reading

namespace Phrase

open ParseState Reading

variable {Rule : Type} {made : Kind → Bool}

def MakesOnly (made : Kind → Bool) (draw : ParseState → Reading) : Prop :=
  ∀ state : ParseState, MadeOf made (draw state)

theorem MakesOnly.loop {test : ParseState → Bool} {step : ParseState → Reading}
    (h : MakesOnly made step) (limit : Nat) : MakesOnly made (drawLoop test step · limit) := by
  intro state
  induction limit generalizing state with
  | zero => exact madeOf_nothing rfl fun _ => Verdict.noConfusion
  | succ limit ih =>
    simp only [drawLoop]
    split
    · split
      · exact ⟨(h state).nodes, fun _ => Verdict.noConfusion⟩
      · exact (h state).andThen (ih (state.moveTo (step state).lexer))
    · exact madeOf_nothing rfl fun _ => Verdict.noConfusion

theorem MakesOnly.chain {test : ParseState → Bool} {field : Kind → Field}
    {step : ParseState → Reading} (h : MakesOnly made step) {reading : Reading}
    (hr : MadeOf made reading) (state : ParseState) (limit : Nat) :
    MadeOf made (drawChain test field step state reading limit) := by
  induction limit generalizing state reading with
  | zero => exact ⟨hr.nodes, hr.around⟩
  | succ limit ih =>
    simp only [drawChain]
    split
    · have hwrap := (hr.fill (field (state.moveTo reading.lexer).kind)).wrap
        (h (state.moveTo reading.lexer))
      split
      · exact hwrap
      · exact ih hwrap _
    · exact hr

/-- Drawing a phrase that settles kinds of a class makes nodes of these kinds only. -/
theorem MakesOnly.phrase (herror : made .error = true) {drawRule : Rule → ParseState → Reading}
    (hrules : ∀ rule, MakesOnly made (drawRule rule)) {phrase : Phrase Rule}
    (h : phrase.makesOnly made = true) : MakesOnly made (phrase.draw drawRule) := by
  induction phrase with
  | take field => exact fun state => madeOf_taken state field
  | expect kind field =>
    intro state
    simp only [draw]
    split
    · exact madeOf_taken state field
    · exact madeOf_nothing rfl fun _ => Verdict.noConfusion
  | close kind =>
    intro state
    simp only [draw]
    split
    · exact madeOf_taken state none
    · exact madeOf_nothing rfl fun _ => Verdict.noConfusion
  | seq first second ih ih' =>
    simp only [makesOnly, Bool.and_eq_true] at h
    exact fun state => (ih h.1 state).andThen (ih' h.2 _)
  | both first second ih ih' =>
    simp only [makesOnly, Bool.and_eq_true] at h
    intro state
    simp only [draw]
    split
    · exact ih h.1 state
    · exact (ih h.1 state).andThen (ih' h.2 _)
  | branch test yes no ih ih' =>
    simp only [makesOnly, Bool.and_eq_true] at h
    intro state
    simp only [draw]
    split
    · exact ih h.1 state
    · exact ih' h.2 state
  | loop test body ih => exact fun state => (ih h).loop _ state
  | choose kind => exact fun state => ⟨trivial, fun other ho => Verdict.chose.inj ho ▸ h⟩
  | node body ih => exact fun state => (ih h state).close
  | slot field body ih => exact fun state => (ih h state).fill _
  | chain head test field body ih ih' =>
    simp only [makesOnly, Bool.and_eq_true] at h
    intro state
    simp only [draw]
    split
    · exact (ih' h.2).chain (ih h.1 state) _ _
    · exact ⟨(ih h.1 state).nodes, fun _ => Verdict.noConfusion⟩
  | look probe yes no _ ih' ih'' =>
    simp only [makesOnly, Bool.and_eq_true] at h
    intro state
    simp only [draw]
    split
    · exact ⟨(ih' h.1 state).nodes, (ih' h.1 state).around⟩
    · exact ⟨(ih'' h.2 state).nodes, (ih'' h.2 state).around⟩
  | attempt body yes no ih ih' ih'' =>
    simp only [makesOnly, Bool.and_eq_true] at h
    intro state
    simp only [draw]
    split
    · exact (ih h.1.1 state).andThen (ih' h.1.2 _)
    · exact ⟨(ih'' h.2 state).nodes, (ih'' h.2 state).around⟩
  | recover element ih =>
    intro state
    simp only [draw]
    split
    · exact ⟨(ih h state).nodes, fun _ => Verdict.noConfusion⟩
    · exact madeOf_skipped herror state _
  | absorb body ih => exact fun state => ⟨(ih h state).nodes, (ih h state).around⟩
  | nested body ih =>
    intro state
    simp only [draw]
    split
    · exact madeOf_nothing rfl fun _ => Verdict.noConfusion
    · exact ih h { state with depth := state.depth + 1 }
  | call rule => exact hrules rule
  | _ => exact fun state => madeOf_nothing rfl fun _ => Verdict.noConfusion

/-- Drawing a rule of a grammar whose phrases settle kinds of a class makes nodes of these kinds
only. -/
theorem makesOnly_drawRule (herror : made .error = true) {grammar : Rule → Phrase Rule}
    (h : ∀ rule, (grammar rule).makesOnly made = true) (budget : Nat) (rule : Rule) :
    MakesOnly made (drawRule grammar budget rule) := by
  induction budget generalizing rule with
  | zero => exact fun state => madeOf_nothing rfl fun _ => Verdict.noConfusion
  | succ budget ih => exact MakesOnly.phrase herror ih (h rule)

end Phrase

end ScriptTree

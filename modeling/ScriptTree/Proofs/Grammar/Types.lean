import ScriptTree.Proofs.Grammar.Declaration
import ScriptTree.Proofs.Parser.Frank
import ScriptTree.Proofs.Speculation

/-!
Types as they are read: how a type comes out is told from the token that it starts with, and all
that it reports are failures.
-/

namespace ScriptTree

namespace Grammar

open ParseState Phrase

theorem uniform_read (budget : Nat) (phrase : Clause) : Uniform (read budget phrase) :=
  Uniform.phrase (uniform_runRule grammar budget) phrase

/-- The rules of types refer to nothing but types. -/
theorem frank_type (rule : Rule) (h : (rule == .type) = true) :
    (grammar rule).isFrank (· == .type) = true := by
  obtain rfl := beq_iff_eq.mp h
  decide

theorem frank_read (budget : Nat) {phrase : Clause} (h : phrase.isFrank (· == .type) = true) :
    Frank (read budget phrase) :=
  Frank.phrase (fun _ hrule => frank_runRule frank_type budget hrule) h

section

variable {budget : Nat} {state : ParseState}

/-- A check that fits leaves the state as it is, and its test holds. -/
theorem read_check {test : Test} (h : (read budget (check test) state).1 ≠ .failed) :
    test.holds state = true ∧ (read budget (check test) state).2 = state := by
  by_cases htest : test.holds state = true
  · refine ⟨htest, ?_⟩
    simp only [check, read, run, htest, if_true]
  · simp [check, read, run, htest] at h

/-- Where both of two phrases fit, the second one is read behind the first. -/
theorem read_both {first second : Clause}
    (h : (read budget (.both first second) state).1 ≠ .failed) :
    (read budget first state).1 ≠ .failed ∧
      read budget (.both first second) state = read budget second (read budget first state).2 := by
  simp only [read, run] at h ⊢
  generalize first.run (runRule grammar budget) state = result at h ⊢
  obtain ⟨outcome, after⟩ := result
  cases outcome with
  | failed => exact absurd rfl h
  | _ => exact ⟨Outcome.noConfusion, rfl⟩

/-- The kind that a node is ended with was settled. -/
theorem chose_of_endNode {mark mark' : Nat} {kind : Kind} {outcome : Outcome}
    (h : (state.endNode mark outcome).1 = .node mark' kind) : outcome = .chose kind := by
  cases outcome with
  | chose kind => rw [(Outcome.node.inj h).2]
  | _ => cases h

/-- Where a chain starts from a kind of a class, and goes on with kinds of the class, it ends as a
node of such a kind. -/
theorem exists_node_growChain {test : ParseState → Bool} {field : Kind → Field}
    {step : ParseState → Outcome × ParseState} {good : Kind → Prop}
    (hstep : ∀ state kind, (step state).1 = .chose kind → good kind) {kind : Kind}
    (h : good kind) (mark : Nat) (state : ParseState) (limit : Nat) :
    ∃ mark' kind', (growChain test field step mark kind state limit).1 = .node mark' kind' ∧
      good kind' := by
  induction limit generalizing mark kind state with
  | zero => exact ⟨mark, kind, rfl, h⟩
  | succ limit ih =>
    rw [growChain]
    split
    · dsimp only
      split
      · next outer kind' after he =>
        exact ih (hstep _ _ (chose_of_endNode (congrArg Prod.fst he))) outer after
      · exact ⟨mark, kind, rfl, h⟩
    · exact ⟨mark, kind, rfl, h⟩

/-- A chain that fits is a node, of a kind that its head or one of its rounds has settled. -/
theorem exists_node_chain {head body : Clause} {test : Test} {field : Kind → Field}
    {good : Kind → Prop}
    (hhead : ∀ mark kind, (read budget head state).1 = .node mark kind → good kind)
    (hbody : ∀ state kind, (read budget body state).1 = .chose kind → good kind)
    (h : (read budget (.chain head test field body) state).1 ≠ .failed) :
    ∃ mark kind, (read budget (.chain head test field body) state).1 = .node mark kind ∧
      good kind := by
  simp only [read, run] at h hhead ⊢
  generalize head.run (runRule grammar budget) state = result at h hhead ⊢
  obtain ⟨outcome, after⟩ := result
  cases outcome with
  | node mark kind => exact exists_node_growChain hbody (hhead mark kind rfl) mark after _
  | _ => exact absurd rfl h

/-- Steps of which the last one settles a kind settle this kind. -/
theorem read_steps_choose (budget : Nat) (parts : List Clause) (kind : Kind) (state : ParseState) :
    (read budget (steps (parts ++ [.choose kind])) state).1 = .chose kind := by
  induction parts generalizing state with
  | nil => rfl
  | cons part rest ih =>
    have hsteps : steps (part :: rest ++ [.choose kind]) =
        .seq part (steps (rest ++ [.choose kind])) := by
      cases rest <;> rfl
    rw [hsteps]
    exact ih (read budget part state).2

theorem read_nodeOf (budget : Nat) (kind : Kind) (parts : List Clause) (state : ParseState) :
    (read budget (nodeOf kind parts) state).1 = .node state.mark kind := by
  have hchose := read_steps_choose budget parts kind state.openNode
  simp only [read] at hchose
  simp only [nodeOf, read, run, hchose]
  rfl

theorem read_branch_of_holds {test : Test} (h : test.holds state = true) (yes no : Clause) :
    read budget (.branch test yes no) state = read budget yes state :=
  if_pos h

theorem read_branch_of_not {test : Test} (h : ¬ test.holds state = true) (yes no : Clause) :
    read budget (.branch test yes no) state = read budget no state :=
  if_neg h

/-- Names with points and arguments are no class types. -/
theorem ne_classType_of_namedType {mark : Nat} {kind : Kind}
    (h : (read budget namedType state).1 = .node mark kind) : kind ≠ .classType := by
  have hchose : (read budget
      (.branch (.sees .lt) (steps [typeArguments, .choose .genericType]) (.choose .namedType))
      (read budget (name .name) state.openNode).2).1 = .chose kind := chose_of_endNode h
  by_cases htest : (Test.sees .lt).holds (read budget (name .name) state.openNode).2 = true
  · rw [read_branch_of_holds htest] at hchose
    rw [← Outcome.chose.inj hchose]
    decide
  · rw [read_branch_of_not htest] at hchose
    rw [← Outcome.chose.inj hchose]
    decide

theorem ne_classType_of_qualified {kind : Kind}
    (h : (read budget (steps [token, name .name, .choose .qualifiedType]) state).1 = .chose kind) :
    kind ≠ .classType := by
  have hlast : (read budget (steps [token, name .name, .choose .qualifiedType]) state).1 =
      .chose .qualifiedType := read_steps_choose budget [token, name .name] .qualifiedType state
  rw [← Outcome.chose.inj (hlast.symm.trans h)]
  decide

/-- A type starts with a token, and it is a class type where this is the keyword. -/
theorem exists_node_type (h : (read budget (.call .type) state).1 ≠ .failed) :
    ∃ mark kind, (read budget (.call .type) state).1 = .node mark kind ∧ state.kind ≠ .eof ∧
      (kind = .classType ↔ state.kind = .classKw) := by
  cases budget with
  | zero => exact absurd rfl h
  | succ budget =>
    change (read budget type state).1 ≠ .failed at h
    change ∃ mark kind, (read budget type state).1 = .node mark kind ∧ _
    by_cases hdepth : state.limit ≤ state.depth
    · simp [type, read, run, hdepth] at h
    have hdeeper (body : Clause) : (read budget (.nested body) state).1 =
        (read budget body { state with depth := state.depth + 1 }).1 := by
      simp only [read, run, if_neg hdepth]
    have hkind : ({ state with depth := state.depth + 1 } : ParseState).kind = state.kind := rfl
    rw [type, hdeeper] at h ⊢
    rw [← hkind]
    generalize ({ state with depth := state.depth + 1 } : ParseState) = deeper at h ⊢
    have hsees (kind : Kind) : (Test.sees kind).holds deeper = true ↔ deeper.kind = kind := by
      rw [holds_sees, beq_iff_eq, eq_comm]
    simp only [cases, List.foldr_cons, List.foldr_nil] at h ⊢
    by_cases hclass : deeper.kind = .classKw
    · rw [read_branch_of_holds ((hsees _).mpr hclass), read_nodeOf]
      exact ⟨_, _, rfl, by rw [hclass]; decide, fun _ => hclass, fun _ => rfl⟩
    rw [read_branch_of_not (mt (hsees _).mp hclass)] at h ⊢
    by_cases hreadonly : deeper.kind = .readonlyKw
    · rw [read_branch_of_holds ((hsees _).mpr hreadonly), read_nodeOf]
      exact ⟨_, _, rfl, by rw [hreadonly]; decide, fun he => absurd he (by decide),
        fun he => absurd he hclass⟩
    rw [read_branch_of_not (mt (hsees _).mp hreadonly)] at h ⊢
    by_cases hname : deeper.kind = .name
    · rw [read_branch_of_holds ((hsees _).mpr hname)] at h ⊢
      obtain ⟨mark, kind, hnode, hne⟩ := exists_node_chain
        (fun _ _ => ne_classType_of_namedType) (fun _ _ => ne_classType_of_qualified) h
      exact ⟨mark, kind, hnode, by rw [hname]; decide, fun he => absurd he hne,
        fun he => absurd he hclass⟩
    · rw [read_branch_of_not (mt (hsees _).mp hname)] at h
      exact absurd rfl h

/-- A type that is read without failure is read again, and into its slot, from every state that
differs only in what was recorded before. -/
theorem exists_typed {other : ParseState} (hbare : other.bare = state.bare) {mark : Nat}
    {kind : Kind}
    (hnode : (read budget (.call .type) state).1 = .node mark kind)
    (hclean : (read budget (.call .type) state).2.failures = state.failures) :
    ∃ tokens mark' typed, state.Takes tokens (read budget (.call .type) state).2 ∧
      read budget typeSpec other = (.node mark' kind, typed) ∧ other.Takes tokens typed ∧
      typed.lexer = (read budget (.call .type) state).2.lexer := by
  have huniform := uniform_read budget (.call .type)
  have hframes := frames_read budget (.call .type)
  obtain ⟨tokens, htakes, htakes'⟩ := exists_takes huniform hframes (frank_read budget rfl) hbare
    hclean
  obtain ⟨mark', hnode'⟩ := huniform.exists_node hbare hnode
  have hslot : read budget typeSpec other = ((read budget (.call .type) other).1,
      (read budget (.call .type) other).2.setField (read budget (.call .type) other).1 .type) := rfl
  have hlexer := congrArg ParseState.lexer (huniform.bare_eq hbare)
  rw [hnode'] at hslot
  refine ⟨tokens, mark', _, htakes, hslot, htakes'.setField ?_ .type, hlexer⟩
  intro inner made he
  exact (hframes other).2 inner made (hnode'.trans he)

/-- An identifier is read where a name stands. -/
theorem read_name (budget : Nat) (h : state.kind = .name) (field : Field) :
    ∃ after, read budget (name field) state = (.node state.mark .ident, after) ∧
      state.Takes [state.current] after ∧ after.lexer = state.lexer.advance := by
  have hne : state.openNode.kind ≠ .eof := by
    show state.kind ≠ .eof
    rw [h]
    decide
  let inside := state.openNode.take none
  have htakes : state.Takes [state.current] inside :=
    (Takes.openNode state).trans (Takes.take hne none)
  refine ⟨(inside.endNode state.mark (.chose .ident)).2.setField (.node state.mark .ident) field,
    ?_, (htakes.endNode (Nat.le_refl _) .ident).setField ?_ field, ?_⟩
  · rw [name, read_branch_of_holds (by rw [holds_sees, h, beq_self_eq_true])]
    rfl
  · intro mark kind he
    exact (Outcome.node.inj he).1 ▸ Nat.le_refl _
  · show (state.openNode.take none).lexer = state.lexer.advance
    rw [ParseState.take, if_neg hne]
    rfl

end

end Grammar

end ScriptTree

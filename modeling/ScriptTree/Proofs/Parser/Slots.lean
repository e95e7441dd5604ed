import ScriptTree.Proofs.Parser.Quiet

/-!
Slots: which nodes a phrase puts side by side into a slot, unless it has something to report. This
is told from the phrase as far as the grammar needs it; where it cannot be told, any kind may come.
-/

namespace ScriptTree

theorem Kind.mem_all (kind : Kind) : kind ∈ Kind.all :=
  List.mem_of_getElem? (Kind.all_getElem_id kind)

namespace Phrase

open ParseState Reading

variable {Rule : Type} {drawRule : Rule → ParseState → Reading} {results : Rule → KindSet}

def mayFill (choice : Kind → Field) (field : Field) : Bool :=
  Kind.all.any fun kind => choice kind == field

def held (results : Rule → KindSet) (field : Field) : Phrase Rule → KindSet
  | .seq first second | .both first second =>
    (first.held results field).union (second.held results field)
  | .branch _ yes no | .look _ yes no => (yes.held results field).union (no.held results field)
  | .slot choice body =>
    match body.made results with
    | some kinds => if mayFill choice field then kinds else .empty
    | none => .full
  | .node body => if body.settles then .empty else .full
  | .absorb body | .nested body => body.held results field
  | .call rule => results rule
  | .loop _ _ | .chain _ _ _ _ | .attempt _ _ _ | .recover _ => .full
  | _ => .empty

theorem node_not_mem_taken {state : ParseState} {slot : Option Field} {kind : Kind}
    {field : Option Field} {children : List Shape} :
    .node kind field children ∉ (taken state slot).shapes := by
  unfold taken
  split <;> simp [stay]

theorem node_not_mem_expect {state : ParseState} {wanted : Kind} {slot : Option Field}
    {kind : Kind} {field : Option Field} {children : List Shape} :
    .node kind field children ∉ ((Phrase.expect wanted slot).draw drawRule state).shapes := by
  simp only [draw]
  split
  · exact node_not_mem_taken
  · exact List.not_mem_nil

/-- Whatever node a quiet reading has in a slot is of a kind that the phrase puts there. -/
theorem contains_held (hrules : RulesMake results drawRule) {phrase : Phrase Rule}
    {state : ParseState} (hquiet : Quiet (phrase.draw drawRule state)) {field : Field}
    {kind : Kind} {children : List Shape}
    (hmem : .node kind (some field) children ∈ (phrase.draw drawRule state).shapes) :
    (phrase.held results field).contains kind = true := by
  have hboth {a b : KindSet} (h : a.contains kind = true ∨ b.contains kind = true) :
      (a.union b).contains kind = true := by
    rw [KindSet.contains_union, Bool.or_eq_true]
    exact h
  induction phrase generalizing state with
  | seq first second ih ih' =>
    obtain ⟨hfirst, hsecond⟩ := hquiet.of_andThen
    apply hboth
    exact (List.mem_append.mp hmem).imp (ih hfirst) (ih' hsecond)
  | both first second ih ih' =>
    apply hboth
    simp only [draw] at hquiet hmem
    split at hquiet
    · next hv =>
      rw [if_pos hv] at hmem
      exact Or.inl (ih hquiet hmem)
    · next hv =>
      rw [if_neg hv] at hmem
      obtain ⟨hfirst, hsecond⟩ := hquiet.of_andThen
      exact (List.mem_append.mp hmem).imp (ih hfirst) (ih' hsecond)
  | branch test yes no ih ih' =>
    apply hboth
    simp only [draw] at hquiet hmem
    split at hquiet
    · next ht =>
      rw [if_pos ht] at hmem
      exact Or.inl (ih hquiet hmem)
    · next ht =>
      rw [if_neg ht] at hmem
      exact Or.inr (ih' hquiet hmem)
  | look probe yes no _ ih ih' =>
    apply hboth
    simp only [draw] at hquiet hmem
    split at hquiet
    · next hc =>
      rw [if_pos hc] at hmem
      exact Or.inl (ih hquiet.of_instead hmem)
    · next hc =>
      rw [if_neg hc] at hmem
      exact Or.inr (ih' hquiet.of_instead hmem)
  | slot choice body _ =>
    simp only [held]
    split
    · next kinds hmade =>
      -- The only node is the one that the slot is given to.
      obtain ⟨inner, below, hshapes, -, hinner, -⟩ :=
        (makes_of_made hrules hmade hquiet.of_fill).fill
          (choice (state.moveTo (body.draw drawRule state).lexer).kind)
      rw [draw, hshapes, List.mem_singleton] at hmem
      injection hmem with hkind hslot
      have hfill : mayFill choice field = true :=
        List.any_eq_true.mpr ⟨_, Kind.mem_all _, beq_iff_eq.mpr (Option.some.inj hslot).symm⟩
      rw [if_pos hfill, hkind]
      exact hinner
    · exact KindSet.contains_full kind
  | node body _ =>
    simp only [held]
    split
    · next hs =>
      -- a node that is closed here stands in no slot
      obtain ⟨inner, hverdict⟩ := chose_of_settles hs (Quiet.of_close hquiet)
      simp [draw, close_of_chose hverdict] at hmem
    · exact KindSet.contains_full kind
  | absorb body ih => exact ih ⟨hquiet.kept, hquiet.silent⟩ hmem
  | nested body ih =>
    have hdraw := draw_nested_of_quiet hquiet
    rw [hdraw] at hquiet hmem
    exact ih hquiet hmem
  | call rule =>
    -- the rule makes a single node, so it is the one in the slot
    obtain ⟨-, inner, slot, below, hshapes, hinner⟩ := hrules rule state hquiet
    rw [draw, hshapes, List.mem_singleton] at hmem
    injection hmem with hkind
    rw [held, hkind]
    exact hinner
  | take slot => exact absurd hmem node_not_mem_taken
  | expect wanted slot => exact absurd hmem node_not_mem_expect
  | close wanted =>
    simp only [draw] at hmem
    split at hmem
    · exact absurd hmem node_not_mem_taken
    · cases hmem
  | loop test body _ => exact KindSet.contains_full kind
  | chain head test choice body _ _ => exact KindSet.contains_full kind
  | attempt body yes no _ _ _ => exact KindSet.contains_full kind
  | recover element _ => exact KindSet.contains_full kind
  | _ => cases hmem

end Phrase

end ScriptTree

import ScriptTree.Proofs.Parser.Calls
import ScriptTree.Proofs.Parser.Footing
import ScriptTree.Proofs.Parser.Quiet

/-!
Where bodies are opened. A phrase that requires an opening brace and goes on behind it whether it
was there or not should be started at a brace only. Whether a phrase starts all such phrases in the
right place is computed on it, from the tests around them. What is computed holds of all phrases in
progress at once.
-/

namespace ScriptTree

instance : DecidableEq (Kind → Field) := fun first second =>
  decidable_of_iff (∀ kind ∈ Kind.all, first kind = second kind)
    ⟨fun h => funext fun kind => h kind (List.mem_of_getElem? (Kind.all_getElem_id kind)),
      fun h _ _ => h ▸ rfl⟩

deriving instance DecidableEq for Test, Phrase

def Test.second : Test → KindSet
  | .peek 1 kinds => kinds
  | .and first second => first.second.inter second.second
  | _ => .full

/-- A test that holds tells the kinds that the token behind the lookahead may have. -/
theorem Test.contains_second {test : Test} {state : ParseState} (h : test.holds state = true) :
    test.second.contains (state.lexer.ahead 1).kind = true := by
  induction test with
  | peek distance kinds =>
    match distance with
    | 1 => exact h
    | 0 => exact KindSet.contains_full _
    | distance + 2 => exact KindSet.contains_full _
  | and first second ih ih' =>
    simp only [holds, Bool.and_eq_true] at h
    simp only [Test.second, KindSet.contains_inter, ih h.1, ih' h.2, Bool.and_self]
  | _ => exact KindSet.contains_full _

namespace Phrase

variable {Rule : Type}

def isOpening : Phrase Rule → Bool
  | .expect kind _ => kind == .leftBrace
  | _ => false

def isTaking : Phrase Rule → Bool
  | .take _ => true
  | _ => false

/-- Whether a phrase goes on behind a brace that it requires only where there is one, its lookahead
having one of the kinds `here`, and the token behind it one of the kinds `next`. Rules are started
at the kinds `entry`. What is in nodes of the kinds `exempt` does not matter. -/
def opens (entry : Rule → KindSet) (exempt : KindSet) : Phrase Rule → KindSet → KindSet → Bool
  | .seq first second, here, next =>
    first.opens entry exempt here next &&
      (!first.isOpening || here.isSubset (.single .leftBrace) || second.chosen.isSubset exempt) &&
      second.opens entry exempt
        (if first.isTaking && !here.contains .eof then next else .full) .full
  | .both first second, here, next | .chain first _ _ second, here, next =>
    first.opens entry exempt here next && second.opens entry exempt .full .full
  | .branch test yes no, here, next =>
    yes.opens entry exempt (here.inter test.first) (next.inter test.second) &&
      no.opens entry exempt here next
  | .loop _ body, _, _ => body.opens entry exempt .full .full
  | .node body, here, next | .slot _ body, here, next | .recover body, here, next
  | .absorb body, here, next | .nested body, here, next => body.opens entry exempt here next
  | .look probe yes no, here, next =>
    probe.opens entry exempt here next && yes.opens entry exempt here next &&
      no.opens entry exempt here next
  | .attempt body yes no, here, next =>
    body.opens entry exempt here next && yes.opens entry exempt .full .full &&
      no.opens entry exempt here next
  | .blame shape reading, here, next =>
    shape.opens entry exempt here next && reading.opens entry exempt here next
  | .call rule, here, _ => here.isSubset (entry rule)
  | _, _, _ => true

end Phrase

namespace CallFrame

open Phrase ParseState

variable {Rule : Type} {grammar : Rule → Phrase Rule} {entry : Rule → KindSet} {exempt : KindSet}

/-- A phrase in progress that goes on behind braces only where they stand. -/
def Opens (entry : Rule → KindSet) (exempt : KindSet) (frame : CallFrame Rule) : Prop :=
  ∃ here next, frame.phrase.opens entry exempt here next = true ∧
    here.contains frame.state.kind = true ∧ next.contains (frame.state.lexer.ahead 1).kind = true

namespace Opens

variable {budget : Nat} {phrase : Phrase Rule} {state : ParseState} {outer inner : CallFrame Rule}

/-- A phrase that may be started anywhere. -/
theorem anywhere (h : phrase.opens entry exempt .full .full = true) :
    Opens entry exempt ⟨budget, phrase, state⟩ :=
  ⟨.full, .full, h, KindSet.contains_full _, KindSet.contains_full _⟩

/-- What a phrase in progress starts goes on behind braces only where they stand. -/
theorem of_mem_starts (h : Opens entry exempt outer)
    (hrules : ∀ rule, (grammar rule).opens entry exempt (entry rule) .full = true)
    (hin : inner ∈ outer.starts grammar) : Opens entry exempt inner := by
  obtain ⟨budget, phrase, state⟩ := outer
  obtain ⟨here, next, hopens, hhere, hnext⟩ := h
  cases phrase with
  | seq first second =>
    simp only [opens, Bool.and_eq_true] at hopens
    simp only [starts, List.mem_cons, List.not_mem_nil, or_false] at hin
    rcases hin with rfl | rfl
    · exact ⟨here, next, hopens.1.1, hhere, hnext⟩
    · refine ⟨_, _, hopens.2, ?_, KindSet.contains_full _⟩
      split
      · -- the lookahead is taken, and the token behind it is the lookahead then
        next htaking =>
        cases first with
        | take field =>
          have heof : state.kind ≠ .eof := by
            rintro heq
            rw [heq] at hhere
            simp [hhere] at htaking
          simp only [run, ParseState.take, if_neg heof]
          exact hnext
        | _ => simp [isTaking] at htaking
      · exact KindSet.contains_full _
  | both first second =>
    simp only [opens, Bool.and_eq_true] at hopens
    simp only [starts, List.mem_cons] at hin
    rcases hin with rfl | hin
    · exact ⟨here, next, hopens.1, hhere, hnext⟩
    · split at hin
      · cases hin
      · obtain rfl := List.mem_singleton.mp hin
        exact anywhere hopens.2
  | branch test yes no =>
    simp only [opens, Bool.and_eq_true] at hopens
    simp only [starts, List.mem_singleton] at hin
    subst hin
    split
    · next htest =>
      refine ⟨_, _, hopens.1, ?_, ?_⟩
      · rw [KindSet.contains_inter, hhere, Test.contains_first htest]
        rfl
      · rw [KindSet.contains_inter, hnext, Test.contains_second htest]
        rfl
    · exact ⟨here, next, hopens.2, hhere, hnext⟩
  | loop test body =>
    simp only [starts, List.mem_map] at hin
    -- a round may start anywhere, so nothing is known of its lookahead
    obtain ⟨start, -, rfl⟩ := hin
    exact anywhere hopens
  | chain head test field body =>
    simp only [opens, Bool.and_eq_true] at hopens
    simp only [starts, List.mem_cons] at hin
    rcases hin with rfl | hin
    · exact ⟨here, next, hopens.1, hhere, hnext⟩
    · split at hin
      · obtain ⟨start, -, rfl⟩ := List.mem_map.mp hin
        exact anywhere hopens.2
      · cases hin
  | look probe yes no =>
    simp only [opens, Bool.and_eq_true] at hopens
    simp only [starts, List.mem_cons, List.not_mem_nil, or_false] at hin
    rcases hin with rfl | rfl
    · exact ⟨here, next, hopens.1.1, hhere, hnext⟩
    · -- the probe leaves the lookahead in place for either phrase
      split
      · exact ⟨here, next, hopens.1.2, hhere, hnext⟩
      · exact ⟨here, next, hopens.2, hhere, hnext⟩
  | attempt body yes no =>
    simp only [opens, Bool.and_eq_true] at hopens
    simp only [starts, List.mem_cons, List.not_mem_nil, or_false] at hin
    rcases hin with rfl | rfl
    · exact ⟨here, next, hopens.1.1, hhere, hnext⟩
    · split
      · exact anywhere hopens.1.2
      · exact ⟨here, next, hopens.2, hhere, hnext⟩
  | blame shape reading =>
    simp only [opens, Bool.and_eq_true] at hopens
    simp only [starts, List.mem_cons, List.not_mem_nil, or_false] at hin
    rcases hin with rfl | rfl
    · exact ⟨here, next, hopens.1, hhere, hnext⟩
    · exact ⟨here, next, hopens.2, hhere, hnext⟩
  | nested body =>
    simp only [starts] at hin
    split at hin
    · cases hin
    · obtain rfl := List.mem_singleton.mp hin
      exact ⟨here, next, hopens, hhere, hnext⟩
  | call rule =>
    simp only [starts] at hin
    split at hin
    · cases hin
    · obtain rfl := List.mem_singleton.mp hin
      exact ⟨_, _, hrules rule, KindSet.contains_of_isSubset hopens hhere, KindSet.contains_full _⟩
  | node body | slot field body | recover body | absorb body =>
    simp only [starts, List.mem_singleton] at hin
    subst hin
    exact ⟨here, next, hopens, hhere, hnext⟩
  | _ => cases hin

/-- Phrases in progress at once go on behind braces only where they stand, if the outermost does. -/
theorem of_chain {frames : List (CallFrame Rule)} (h : Opens entry exempt outer)
    (hrules : ∀ rule, (grammar rule).opens entry exempt (entry rule) .full = true)
    (hchain : (outer :: frames).IsChain fun outer inner => inner ∈ outer.starts grammar) :
    ∀ frame ∈ outer :: frames, Opens entry exempt frame := by
  induction frames generalizing outer with
  | nil =>
    intro frame hmem
    exact List.mem_singleton.mp hmem ▸ h
  | cons inner frames ih =>
    obtain ⟨hstart, hrest⟩ := List.isChain_cons_cons.mp hchain
    intro frame hmem
    rcases List.mem_cons.mp hmem with rfl | hmem
    · exact h
    · exact ih (h.of_mem_starts hrules hstart) hrest frame hmem

/-- Where a brace is required by a phrase that goes on anyway, there is one. -/
theorem kind_eq {first second : Phrase Rule}
    (h : Opens entry exempt ⟨budget, .seq first second, state⟩) (hfirst : first.isOpening = true)
    (hchosen : second.chosen.isSubset exempt = false) : state.kind = .leftBrace := by
  obtain ⟨here, next, hopens, hhere, -⟩ := h
  simp only [opens, hfirst, hchosen, Bool.not_true, Bool.false_or, Bool.or_false,
    Bool.and_eq_true] at hopens
  have hbrace := KindSet.contains_of_isSubset hopens.1.2 hhere
  rw [KindSet.contains_single, beq_iff_eq] at hbrace
  exact hbrace.symm

end Opens

end CallFrame

end ScriptTree

import ScriptTree.Proofs.Kind.Set
import ScriptTree.Proofs.Parser.Account

/-!
Footings: how the lookahead behind a phrase was read. A phrase may read its lookahead again in
another mode and then fail on it, and the lookahead is left in that mode. Behind a semicolon or a
closing brace this must not happen, since a new element starts there.

A phrase is followed with footings in place of lexers. No lookahead is left in another mode where
the token before it is known to be neither of the two, or where what failed is skipped or taken
back.
-/

namespace ScriptTree

def Kind.endsElement (kind : Kind) : Bool :=
  kind == .semicolon || kind == .rightBrace

/-- What is known of a lexer: nothing; that the lookahead is read as an ordinary token where the
token before it ends an element; or that the token before it does not. -/
inductive Footing where
  | loose | firm | safe
  deriving DecidableEq, Repr, Inhabited

namespace Footing

def Holds : Footing → Lexer → Prop
  | .loose, _ => True
  | .firm, lexer => lexer.preceding.endsElement = true → lexer.mode = .plain
  | .safe, lexer => lexer.preceding.endsElement = false

def meet : Footing → Footing → Footing
  | .safe, other => other
  | .firm, .loose => .loose
  | .firm, _ => .firm
  | .loose, _ => .loose

variable {footing : Footing} {lexer : Lexer}

theorem Holds.meet_left (h : footing.Holds lexer) (other : Footing) :
    (footing.meet other).Holds lexer := by
  cases footing <;> cases other <;> simp_all [meet, Holds]

theorem Holds.meet_right (h : footing.Holds lexer) (other : Footing) :
    (other.meet footing).Holds lexer := by
  cases footing <;> cases other <;> simp_all [meet, Holds]

def behind (kind : Kind) : Footing :=
  if kind.endsElement then .firm else .safe

theorem holds_behind (lexer : Lexer) : (behind lexer.current.kind).Holds lexer.advance := by
  unfold behind
  split
  · exact fun _ => rfl
  · next h => exact Bool.eq_false_iff.mpr h

theorem firm_advance (lexer : Lexer) : firm.Holds lexer.advance :=
  fun _ => rfl

def critical : KindSet :=
  .ofList [.semicolon, .rightBrace, .eof]

def taking (here : KindSet) (entry : Footing) : Footing :=
  if here.isDisjoint critical then .safe else entry.meet .firm

/-- Behind the lookahead, what it was tells whether it has ended an element. -/
theorem Holds.taking {here : KindSet} {state : ParseState} (h : footing.Holds state.lexer)
    (hhere : here.contains state.kind = true) (field : Option Field) :
    (footing.taking here).Holds (Reading.taken state field).lexer := by
  unfold Reading.taken Footing.taking
  by_cases hd : here.isDisjoint critical = true
  · have hcritical := KindSet.not_contains_of_isDisjoint hd hhere
    have hne : state.kind ≠ .semicolon ∧ state.kind ≠ .rightBrace ∧ state.kind ≠ .eof := by
      refine ⟨?_, ?_, ?_⟩ <;> intro hk <;> rw [hk] at hcritical <;> revert hcritical <;> decide
    rw [if_pos hd, if_neg hne.2.2]
    show state.kind.endsElement = false
    simp [Kind.endsElement, hne.1, hne.2.1]
  · rw [if_neg hd]
    split
    · exact h.meet_left .firm
    · exact (firm_advance state.lexer).meet_right footing

def relexing : Footing → Footing
  | .safe => .safe
  | _ => .loose

theorem Holds.relexing (h : footing.Holds lexer) (mode : LexMode) :
    footing.relexing.Holds (lexer.relex mode) := by
  cases footing with
  | loose => trivial
  | firm => trivial
  | safe =>
    unfold Lexer.relex
    split
    · exact h
    · exact h

def repeating (round : Footing → Footing) (entry : Footing) : Footing :=
  let again := entry.meet (round entry)
  if again.meet (round again) = again then again else .loose

/-- What is known behind a call of a rule. The gentle ones keep a safe footing. -/
def calling (isGentle : Bool) : Footing → Footing
  | .safe => if isGentle then .safe else .firm
  | footing => footing

end Footing

def Test.first : Test → KindSet
  | .peek 0 kinds => kinds
  | .word _ => .single .name
  | .label => .single .name
  | .and first second => first.first.inter second.first
  | .or first second => first.first.union second.first
  | _ => .full

/-- A test that holds tells the kinds that the lookahead may have. -/
theorem Test.contains_first {test : Test} {state : ParseState} (h : test.holds state = true) :
    test.first.contains state.kind = true := by
  induction test with
  | peek distance kinds =>
    cases distance with
    | zero => exact h
    | succ distance => exact KindSet.contains_full _
  | word words =>
    simp only [holds, Bool.and_eq_true, beq_iff_eq] at h
    simp [first, h.1]
  | label =>
    simp only [holds, Bool.and_eq_true, beq_iff_eq] at h
    simp [first, h.1]
  | glued => exact KindSet.contains_full _
  | not test _ => exact KindSet.contains_full _
  | and first second ih ih' =>
    simp only [holds, Bool.and_eq_true] at h
    simp only [Test.first, KindSet.contains_inter, ih h.1, ih' h.2, Bool.and_self]
  | or first second ih ih' =>
    simp only [holds, Bool.or_eq_true] at h
    simp only [Test.first, KindSet.contains_union, Bool.or_eq_true]
    exact h.imp ih ih'

namespace Phrase

open ParseState Reading Footing

variable {Rule : Type}

/-- Follows a phrase from a footing on, the lookahead having one of the kinds `here`. Unless
`strict` is asked for, only readings without failure are followed. -/
def tread (isGentle : Rule → Bool) : Phrase Rule → Bool → KindSet → Footing → Footing
  | .take _, _, here, entry => entry.taking here
  | .expect kind _, strict, _, entry =>
    if strict || kind == .eof then entry.meet (behind kind) else behind kind
  | .close kind, _, _, entry => entry.meet (behind kind)
  | .relex _, _, _, entry => entry.relexing
  | .seq first second, strict, here, entry =>
    second.tread isGentle strict .full (first.tread isGentle strict here entry)
  | .both first second, strict, here, entry =>
    let between := first.tread isGentle strict here entry
    between.meet (second.tread isGentle strict .full between)
  | .branch test yes no, strict, here, entry =>
    (yes.tread isGentle strict (here.inter test.first) entry).meet
      (no.tread isGentle strict here entry)
  | .loop test body, strict, _, entry => entry.repeating (body.tread isGentle strict test.first)
  | .node body, strict, here, entry | .slot _ body, strict, here, entry =>
    body.tread isGentle strict here entry
  | .chain head test _ body, strict, here, entry =>
    (head.tread isGentle strict here entry).repeating (body.tread isGentle strict test.first)
  | .look _ yes no, strict, here, entry =>
    (yes.tread isGentle strict here entry).meet (no.tread isGentle strict here entry)
  | .attempt body yes no, strict, here, entry =>
    (yes.tread isGentle strict .full (body.tread isGentle false here entry)).meet
      (no.tread isGentle strict here entry)
  | .recover element, _, here, entry =>
    (entry.meet .firm).meet (element.tread isGentle false here entry)
  | .absorb body, _, here, entry => body.tread isGentle true here entry
  | .nested body, strict, here, entry => entry.meet (body.tread isGentle strict here entry)
  | .call rule, _, _, entry => entry.calling (isGentle rule)
  | _, _, _, entry => entry

def Steady (isGentle : Bool) (draw : ParseState → Reading) : Prop :=
  ∀ state : ParseState,
    (firm.Holds state.lexer → firm.Holds (draw state).lexer) ∧
    (isGentle = true → safe.Holds state.lexer → safe.Holds (draw state).lexer)

/-- A call leaves what its rule is known to leave. -/
theorem Steady.calling {isGentle : Bool} {draw : ParseState → Reading} (h : Steady isGentle draw)
    {entry : Footing} {state : ParseState} (he : entry.Holds state.lexer) :
    (entry.calling isGentle).Holds (draw state).lexer := by
  cases entry with
  | loose => trivial
  | firm => exact (h state).1 he
  | safe =>
    rw [Footing.calling]
    split
    · next hg => exact (h state).2 hg he
    · refine (h state).1 ?_
      exact fun hends => absurd hends (Bool.eq_false_iff.mp he)

/-- What is known before the rounds of a loop is known behind them. -/
theorem drawLoop_holds {test : Test} {step : ParseState → Reading} {strict : Bool}
    {round : Footing → Footing}
    (hround : ∀ entry state, test.holds state = true → entry.Holds state.lexer →
      (strict = false → (step state).failures = 0) → (round entry).Holds (step state).lexer)
    {head : Footing} (hsteady : head.meet (round head) = head) {state : ParseState}
    (hhead : head.Holds state.lexer) {rounds : Nat}
    (hclean : strict = false →
      (drawLoop (fun state => test.holds state) step state rounds).failures = 0) :
    head.Holds (drawLoop (fun state => test.holds state) step state rounds).lexer := by
  -- on the number of rounds, with the steady footing as the invariant
  induction rounds generalizing state with
  | zero => exact hhead
  | succ rounds ih =>
    simp only [drawLoop] at hclean ⊢
    split at hclean
    · next ht =>
      rw [if_pos ht]
      have hagain (hf : strict = false → (step state).failures = 0) :
          head.Holds (step state).lexer := by
        have hnext := (hround head state ht hhead hf).meet_right head
        rwa [hsteady] at hnext
      split at hclean
      · next hv =>
        rw [if_pos hv]
        exact hagain hclean
      · next hv =>
        rw [if_neg hv]
        refine ih (hagain ?_) ?_
        · exact fun hs => (Nat.add_eq_zero_iff.mp (hclean hs)).1
        · exact fun hs => (Nat.add_eq_zero_iff.mp (hclean hs)).2
    · next ht =>
      rw [if_neg ht]
      exact hhead

/-- By induction on the rounds: what is known in front of each of them is known again behind it. -/
theorem drawChain_holds {test : Test} {field : Kind → Field} {step : ParseState → Reading}
    {strict : Bool} {round : Footing → Footing}
    (hround : ∀ entry state, test.holds state = true → entry.Holds state.lexer →
      (strict = false → (step state).failures = 0) → (round entry).Holds (step state).lexer)
    {head : Footing} (hsteady : head.meet (round head) = head) {state : ParseState}
    {reading : Reading} (hhead : head.Holds reading.lexer) {rounds : Nat}
    (hclean : strict = false →
      (drawChain (fun state => test.holds state) field step state reading rounds).failures = 0) :
    head.Holds
      (drawChain (fun state => test.holds state) field step state reading rounds).lexer := by
  induction rounds generalizing state reading with
  | zero => exact hhead
  | succ rounds ih =>
    let moved := state.moveTo reading.lexer
    let wrapped := (reading.fill (field moved.kind)).wrap (step moved)
    have hagain (ht : test.holds moved = true) (hf : strict = false → wrapped.failures = 0) :
        head.Holds wrapped.lexer := by
      have hnext := (hround head moved ht hhead fun hs => ?_).meet_right head
      · rw [hsteady] at hnext
        rw [wrap_lexer]
        exact hnext
      · have hzero := hf hs
        rw [failures_wrap] at hzero
        exact (Nat.add_eq_zero_iff.mp hzero).2
    simp only [drawChain] at hclean ⊢
    split at hclean
    · next ht =>
      rw [if_pos ht]
      split at hclean
      · next hw =>
        rw [if_pos hw]
        exact hagain ht hclean
      · next hw =>
        rw [if_neg hw]
        refine ih (hagain ht fun hs => ?_) hclean
        have hle := failures_le_drawChain (fun state => test.holds state) field step moved wrapped
          rounds
        exact Nat.le_zero.mp (hclean hs ▸ hle)
    · next ht =>
      rw [if_neg ht]
      exact hhead

/-- Skipping leaves the lexer where it is, or behind a token that was read as an ordinary one. -/
theorem skipElement_holds {footing : Footing}
    (hadvance : ∀ lexer : Lexer, footing.Holds lexer.advance)
    {state : ParseState} (h : footing.Holds state.lexer) (braces : Nat) (isFirst : Bool)
    (rounds : Nat) : footing.Holds (state.skipElement braces isFirst rounds).lexer := by
  have hdiscard (state : ParseState) (h : footing.Holds state.lexer) :
      footing.Holds state.discard.lexer := by
    unfold ParseState.discard
    split
    · exact h
    · exact hadvance state.lexer
  induction rounds generalizing state braces isFirst with
  | zero => exact h
  | succ rounds ih =>
    have hd := hdiscard state h
    simp only [skipElement]
    split
    · exact h
    · split
      · split
        · exact hd
        · exact h
      · exact hd
      · exact ih hd _ _
    · split
      · exact hd
      · exact ih hd _ _
    · exact ih hd _ _
    · exact ih hd _ _

theorem skipped_holds {entry : Footing} {state : ParseState} (h : entry.Holds state.lexer)
    (dropped : Reading) : (entry.meet .firm).Holds (skipped state dropped).lexer := by
  have hbare : (entry.meet .firm).Holds state.bare.lexer := h.meet_left .firm
  refine skipElement_holds (fun lexer => ?_) hbare 0 true state.rounds
  exact (firm_advance lexer).meet_right entry

/-- What is known behind a phrase holds of every reading of it. -/
theorem holds_tread {isGentle : Rule → Bool} {drawRule : Rule → ParseState → Reading}
    (hrules : ∀ rule, Steady (isGentle rule) (drawRule rule)) (phrase : Phrase Rule) (strict : Bool)
    (here : KindSet) (entry : Footing) (state : ParseState)
    (hhere : here.contains state.kind = true) (hentry : entry.Holds state.lexer)
    (hclean : strict = false → (phrase.draw drawRule state).failures = 0) :
    (phrase.tread isGentle strict here entry).Holds (phrase.draw drawRule state).lexer := by
  induction phrase generalizing strict here entry state with
  | done | reject | missing | refuse | demand | choose | blame => exact hentry
  | take field => exact hentry.taking hhere field
  | expect kind field =>
    simp only [draw, tread] at hclean ⊢
    by_cases hk : state.kind = kind
    · subst hk
      rw [if_pos rfl]
      unfold Reading.taken
      by_cases he : state.kind = .eof
      · -- the end of the text is not taken, so the lexer stays where it is
        rw [if_pos he, he, beq_self_eq_true, Bool.or_true, if_pos rfl]
        exact hentry.meet_left _
      · rw [if_neg he]
        split
        · exact (holds_behind state.lexer).meet_right entry
        · exact holds_behind state.lexer
    · rw [if_neg hk] at hclean ⊢
      -- a missing token is a failure, which is followed only if that is asked for
      cases strict with
      | true => exact hentry.meet_left _
      | false => cases hclean rfl
  | close kind =>
    simp only [draw, tread]
    split
    · next hk =>
      subst hk
      unfold Reading.taken
      split
      · exact hentry.meet_left _
      · exact (holds_behind state.lexer).meet_right entry
    · exact hentry.meet_left _
  | relex mode => exact hentry.relexing mode
  | seq first second ih ih' =>
    have hsum (hs : strict = false) := Nat.add_eq_zero_iff.mp (hclean hs)
    refine ih' strict .full _ _ (KindSet.contains_full _) ?_ fun hs => (hsum hs).2
    exact ih strict here entry state hhere hentry fun hs => (hsum hs).1
  | both first second ih ih' =>
    simp only [draw, tread] at hclean ⊢
    split at hclean
    · next hv =>
      rw [if_pos hv]
      exact (ih strict here entry state hhere hentry hclean).meet_left _
    · next hv =>
      have hsum (hs : strict = false) := Nat.add_eq_zero_iff.mp (hclean hs)
      rw [if_neg hv]
      refine Holds.meet_right (ih' strict .full _ _ (KindSet.contains_full _) ?_ ?_) _
      · exact ih strict here entry state hhere hentry fun hs => (hsum hs).1
      · exact fun hs => (hsum hs).2
  | branch test yes no ih ih' =>
    simp only [draw, tread] at hclean ⊢
    split at hclean
    · next ht =>
      rw [if_pos ht]
      refine Holds.meet_left (ih strict _ entry state ?_ hentry hclean) _
      rw [KindSet.contains_inter, hhere, Test.contains_first ht, Bool.and_self]
    · next ht =>
      rw [if_neg ht]
      exact (ih' strict here entry state hhere hentry hclean).meet_right _
  | loop test body ih =>
    simp only [draw, tread, Footing.repeating] at hclean ⊢
    split
    · next hsteady =>
      refine drawLoop_holds ?_ hsteady (hentry.meet_left _) hclean
      exact fun entry state ht => ih strict test.first entry state (Test.contains_first ht)
    · trivial
  | node body ih =>
    simp only [draw, tread, close_lexer, failures_close] at hclean ⊢
    exact ih strict here entry state hhere hentry hclean
  | slot field body ih =>
    simp only [draw, tread, fill_lexer, failures_fill] at hclean ⊢
    exact ih strict here entry state hhere hentry hclean
  | chain head test field body ih ih' =>
    simp only [draw, tread, Footing.repeating] at hclean ⊢
    have hhead (hf : strict = false → (head.draw drawRule state).failures = 0) :=
      ih strict here entry state hhere hentry hf
    split at hclean
    · next hv =>
      rw [if_pos hv]
      split
      · next hsteady =>
        refine drawChain_holds ?_ hsteady (Holds.meet_left (hhead fun hs => ?_) _) hclean
        · exact fun entry state ht => ih' strict test.first entry state (Test.contains_first ht)
        · exact Nat.le_zero.mp (hclean hs ▸ failures_le_drawChain _ _ _ _ _ _)
      · trivial
    · next hv =>
      rw [if_neg hv]
      split
      · exact (hhead hclean).meet_left _
      · trivial
  | look probe yes no ih ih' ih'' =>
    simp only [draw, tread, instead] at hclean ⊢
    split at hclean
    · next hc =>
      rw [if_pos hc]
      exact (ih' strict here entry state hhere hentry hclean).meet_left _
    · next hc =>
      rw [if_neg hc]
      exact (ih'' strict here entry state hhere hentry hclean).meet_right _
  | attempt body yes no ih ih' ih'' =>
    simp only [draw, tread] at hclean ⊢
    split at hclean
    · next hc =>
      have hsum (hs : strict = false) := Nat.add_eq_zero_iff.mp (hclean hs)
      -- an attempt that is kept has no failures, even where failures are followed
      have hzero : (body.draw drawRule state).failures = 0 := by
        simp only [Reading.isClean, Bool.and_eq_true, beq_iff_eq] at hc
        exact hc.2
      rw [if_pos hc]
      refine Holds.meet_left (ih' strict .full _ _ (KindSet.contains_full _) ?_ ?_) _
      · exact ih false here entry state hhere hentry fun _ => hzero
      · exact fun hs => (hsum hs).2
    · next hc =>
      rw [if_neg hc]
      exact (ih'' strict here entry state hhere hentry hclean).meet_right _
  | recover element ih =>
    simp only [draw, tread]
    split
    · next hf => exact (ih false here entry state hhere hentry fun _ => hf).meet_right _
    · exact (skipped_holds hentry _).meet_left _
  | absorb body ih => exact ih true here entry state hhere hentry Bool.noConfusion
  | nested body ih =>
    simp only [draw, tread] at hclean ⊢
    split at hclean
    · next hd =>
      rw [if_pos hd]
      exact hentry.meet_left _
    · next hd =>
      rw [if_neg hd]
      exact Holds.meet_right (ih strict here entry { state with depth := state.depth + 1 } hhere
        hentry hclean) _
  | call rule => exact (hrules rule).calling hentry

/-- The rules of a grammar are steady if their phrases are. -/
theorem steady_drawRule {grammar : Rule → Phrase Rule} {isGentle : Rule → Bool}
    (hfirm : ∀ rule, Footing.firm.meet ((grammar rule).tread isGentle true .full .firm) = .firm)
    (hsafe : ∀ rule, isGentle rule = true →
      (grammar rule).tread isGentle true .full .safe = .safe) (budget : Nat) (rule : Rule) :
    Steady (isGentle rule) (drawRule grammar budget rule) := by
  induction budget generalizing rule with
  | zero => exact fun state => ⟨id, fun _ => id⟩
  | succ budget ih =>
    intro state
    refine ⟨fun h => ?_, fun hg h => ?_⟩
    · have hholds :=
        holds_tread ih (grammar rule) true .full .firm state (KindSet.contains_full _) h
        Bool.noConfusion
      rw [← hfirm rule]
      exact hholds.meet_right .firm
    · rw [← hsafe rule hg]
      exact holds_tread ih (grammar rule) true .full .safe state (KindSet.contains_full _) h
        Bool.noConfusion

end Phrase

end ScriptTree

import ScriptTree.Proofs.Kind.Set
import ScriptTree.Proofs.Parser.Account

/-!
Quiet readings: those that keep the rules of use and have nothing to report. What a phrase reads
quietly can be told from the phrase: whether it makes a single node, and of which kinds.
-/

namespace ScriptTree

structure Reading.Quiet (reading : Reading) : Prop where
  kept : reading.misused = false
  silent : reading.reports = []

namespace Reading

open ParseState

theorem Quiet.of_andThen {first second : Reading} (h : Quiet (first.andThen second)) :
    Quiet first ∧ Quiet second := by
  obtain ⟨hkept, hsilent⟩ := h
  simp only [andThen, Bool.or_eq_false_iff, List.append_eq_nil_iff] at hkept hsilent
  exact ⟨⟨hkept.1, hsilent.1⟩, ⟨hkept.2, hsilent.2⟩⟩

theorem Quiet.of_instead {reading dropped : Reading} (h : Quiet (reading.instead dropped)) :
    Quiet reading := by
  obtain ⟨hkept, hsilent⟩ := h
  simp only [instead, Bool.or_eq_false_iff] at hkept
  exact ⟨hkept.2, hsilent⟩

theorem close_reports (reading : Reading) : reading.close.reports = reading.reports := by
  unfold Reading.close
  split <;> rfl

theorem fill_reports (reading : Reading) (field : Field) :
    (reading.fill field).reports = reading.reports := by
  unfold Reading.fill
  split <;> rfl

theorem Quiet.of_close {reading : Reading} (h : Quiet reading.close) : Quiet reading :=
  ⟨Phrase.misused_of_close h.kept, close_reports reading ▸ h.silent⟩

theorem Quiet.of_fill {reading : Reading} {field : Field} (h : Quiet (reading.fill field)) :
    Quiet reading :=
  ⟨Phrase.misused_of_fill h.kept, fill_reports reading field ▸ h.silent⟩

/-- A quiet node around a reading and a body: the body settles its kind. -/
theorem Quiet.of_wrap {reading body : Reading} (h : Quiet (reading.wrap body)) :
    Quiet reading ∧ Quiet body ∧ ∃ kind, body.verdict = .chose kind := by
  obtain ⟨kind, hverdict, -, hreading, hbody⟩ := chose_of_wrap h.kept
  have hsilent := h.silent
  rw [wrap_of_chose hverdict] at hsilent
  obtain ⟨hfirst, hsecond⟩ := List.append_eq_nil_iff.mp hsilent
  exact ⟨⟨hreading, hfirst⟩, ⟨hbody, hsecond⟩, kind, hverdict⟩

def Makes (kinds : KindSet) (reading : Reading) : Prop :=
  reading.verdict = .node ∧ ∃ kind field children, reading.shapes = [.node kind field children] ∧
    kinds.contains kind = true

theorem Makes.mono {kinds kinds' : KindSet} {reading : Reading} (h : Makes kinds reading)
    (hk : ∀ kind, kinds.contains kind = true → kinds'.contains kind = true) :
    Makes kinds' reading := by
  obtain ⟨hverdict, kind, field, children, hshapes, hkind⟩ := h
  exact ⟨hverdict, kind, field, children, hshapes, hk kind hkind⟩

theorem Makes.fill {kinds : KindSet} {reading : Reading} (h : Makes kinds reading)
    (field : Field) : ∃ kind children, (reading.fill field).shapes =
      [.node kind (some field) children] ∧ (reading.fill field).verdict = .node ∧
      kinds.contains kind = true ∧ ∃ old, reading.shapes = [.node kind old children] := by
  obtain ⟨hverdict, kind, old, children, hshapes, hkind⟩ := h
  refine ⟨kind, children, ?_, ?_, hkind, old, hshapes⟩
  · rw [fill_of_node hverdict, hshapes]
    rfl
  · rw [fill_verdict, hverdict]

end Reading

namespace Phrase

open ParseState Reading

variable {Rule : Type}

/-- A chain without anything to report had nothing to report before its rounds. -/
theorem quiet_of_drawChain {test : ParseState → Bool} {field : Kind → Field}
    {step : ParseState → Reading} {state : ParseState} {reading : Reading} {limit : Nat}
    (h : Quiet (drawChain test field step state reading limit)) : Quiet reading := by
  induction limit generalizing state reading with
  | zero => exact absurd h.kept (by simp [drawChain])
  | succ limit ih =>
    simp only [drawChain] at h
    split at h
    · split at h
      · exact h.of_wrap.1.of_fill
      · exact (ih h).of_wrap.1.of_fill
    · exact h

/-- What holds of a node and the lexer behind it, and is kept by every round of a chain, holds
behind the chain; there the test of the chain fails. -/
theorem drawChain_induction {test : ParseState → Bool} {field : Kind → Field}
    {step : ParseState → Reading} {state : ParseState} (holds : Lexer → Shape → Prop)
    (hstep : ∀ lexer shape kind, holds lexer shape → test (state.moveTo lexer) = true →
      Quiet (step (state.moveTo lexer)) → (step (state.moveTo lexer)).verdict = .chose kind →
      holds (step (state.moveTo lexer)).lexer
        (.node kind none (shape.withField (field (state.moveTo lexer).kind) ::
          (step (state.moveTo lexer)).shapes)))
    {reading : Reading} {shape : Shape} (hverdict : reading.verdict = .node)
    (hshapes : reading.shapes = [shape]) (hholds : holds reading.lexer shape) {limit : Nat}
    (hquiet : Quiet (drawChain test field step state reading limit)) :
    ∃ last, (drawChain test field step state reading limit).verdict = .node ∧
      (drawChain test field step state reading limit).shapes = [last] ∧
      holds (drawChain test field step state reading limit).lexer last ∧
      test (state.moveTo (drawChain test field step state reading limit).lexer) = false := by
  induction limit generalizing reading shape with
  | zero => exact absurd hquiet.kept (by simp [drawChain])
  | succ limit ih =>
    simp only [drawChain] at hquiet ⊢
    by_cases ht : test (state.moveTo reading.lexer) = true
    · rw [if_pos ht] at hquiet ⊢
      split at hquiet
      · next hw => exact absurd hquiet.kept (by simp [hw])
      · next hw =>
        rw [if_neg hw]
        rw [drawChain_moveTo] at hquiet ⊢
        obtain ⟨-, hbody, kind, hkind⟩ := (quiet_of_drawChain hquiet).of_wrap
        have hfill : (reading.fill (field (state.moveTo reading.lexer).kind)).shapes =
            [shape.withField (field (state.moveTo reading.lexer).kind)] := by
          rw [fill_of_node hverdict, hshapes]
          rfl
        have hwrapped : ((reading.fill (field (state.moveTo reading.lexer).kind)).wrap
            (step (state.moveTo reading.lexer))).shapes =
            [.node kind none (shape.withField (field (state.moveTo reading.lexer).kind) ::
              (step (state.moveTo reading.lexer)).shapes)] := by
          rw [wrap_of_chose hkind]
          simp [hfill]
        refine ih (by rw [wrap_of_chose hkind]) hwrapped ?_ hquiet
        rw [wrap_of_chose hkind]
        exact hstep _ shape kind hholds ht hbody hkind
    · rw [if_neg ht] at hquiet ⊢
      exact ⟨shape, hverdict, hshapes, hholds, Bool.eq_false_iff.mpr ht⟩

def chosen : Phrase Rule → KindSet
  | .choose kind => .single kind
  | .seq _ second | .both _ second => second.chosen
  | .branch _ yes no | .look _ yes no | .attempt _ yes no => yes.chosen.union no.chosen
  | .slot _ body | .absorb body | .nested body => body.chosen
  | _ => .empty

/-- Whether a phrase always settles the kind of the node around it, unless it has something to
report. -/
def settles : Phrase Rule → Bool
  | .choose _ | .missing _ | .refuse _ => true
  | .seq _ second => second.settles
  | .branch _ yes no | .look _ yes no | .attempt _ yes no => yes.settles && no.settles
  | .absorb body | .nested body => body.settles
  | _ => false

/-- The kinds of the single node that a phrase makes, unless it has something to report. `results`
are those of the rules. -/
def made (results : Rule → KindSet) : Phrase Rule → Option KindSet
  | .node body => if body.settles then some body.chosen else none
  | .slot _ body | .nested body => body.made results
  | .branch _ yes no | .look _ yes no => do
    let first ← yes.made results
    let second ← no.made results
    return first.union second
  | .chain head _ _ body => (head.made results).map (·.union body.chosen)
  | .missing _ | .refuse _ => some .empty
  | .call rule => some (results rule)
  | _ => none

def RulesMake (results : Rule → KindSet) (drawRule : Rule → ParseState → Reading) : Prop :=
  ∀ rule state, Quiet (drawRule rule state) → Makes (results rule) (drawRule rule state)

variable {drawRule : Rule → ParseState → Reading} {results : Rule → KindSet}

/-- Where nothing is reported, nesting stays within the limit. -/
theorem draw_nested_of_quiet {body : Phrase Rule} {state : ParseState}
    (h : Quiet ((Phrase.nested body).draw drawRule state)) :
    (Phrase.nested body).draw drawRule state =
      body.draw drawRule { state with depth := state.depth + 1 } := by
  simp only [draw] at h ⊢
  split at h
  · exact absurd h.silent (by simp [failing])
  · next hl => rw [if_neg hl]

theorem quiet_of_chain {head body : Phrase Rule} {test : Test} {field : Kind → Field}
    {state : ParseState} (h : Quiet ((Phrase.chain head test field body).draw drawRule state)) :
    Quiet (head.draw drawRule state) := by
  simp only [draw] at h
  split at h
  · exact quiet_of_drawChain h
  · exact ⟨h.kept, h.silent⟩

/-- What holds of the head of a chain and is kept by every round holds of the chain. -/
theorem chain_induction (holds : Lexer → Shape → Prop) {head body : Phrase Rule} {test : Test}
    {field : Kind → Field} {state : ParseState}
    (hquiet : Quiet ((Phrase.chain head test field body).draw drawRule state)) {shape : Shape}
    (hverdict : (head.draw drawRule state).verdict = .node)
    (hshapes : (head.draw drawRule state).shapes = [shape])
    (hholds : holds (head.draw drawRule state).lexer shape)
    (hstep : ∀ state shape kind, holds state.lexer shape → test.holds state = true →
      Quiet (body.draw drawRule state) → (body.draw drawRule state).verdict = .chose kind →
      holds (body.draw drawRule state).lexer
        (.node kind none
          (shape.withField (field state.kind) :: (body.draw drawRule state).shapes))) :
    ∃ last, ((Phrase.chain head test field body).draw drawRule state).verdict = .node ∧
      ((Phrase.chain head test field body).draw drawRule state).shapes = [last] ∧
      holds ((Phrase.chain head test field body).draw drawRule state).lexer last ∧
      test.holds
        (state.moveTo ((Phrase.chain head test field body).draw drawRule state).lexer) = false := by
  simp only [draw, if_pos hverdict] at hquiet ⊢
  exact drawChain_induction holds
    (fun lexer shape kind hshape htest => hstep (state.moveTo lexer) shape kind hshape htest)
    hverdict hshapes hholds hquiet

theorem drawLoop_verdict (test : ParseState → Bool) (step : ParseState → Reading)
    (state : ParseState) (limit : Nat) : (drawLoop test step state limit).verdict = .done := by
  induction limit generalizing state with
  | zero => rfl
  | succ limit ih =>
    simp only [drawLoop]
    split
    · split
      · rfl
      · exact ih _
    · rfl

theorem close_verdict (reading : Reading) (kind : Kind) : reading.close.verdict ≠ .chose kind := by
  unfold Reading.close
  split <;> exact Verdict.noConfusion

/-- A chain of nodes settles no kind. -/
theorem drawChain_ne_chose {test : ParseState → Bool} {field : Kind → Field}
    {step : ParseState → Reading} {state : ParseState} {reading : Reading} {limit : Nat}
    {kind : Kind}
    (h : reading.verdict = .node) :
    (drawChain test field step state reading limit).verdict ≠ .chose kind := by
  induction limit generalizing state reading with
  | zero => exact fun hchose => Verdict.noConfusion (h.symm.trans hchose)
  | succ limit ih =>
    simp only [drawChain]
    split
    · cases hbody : (step (state.moveTo reading.lexer)).verdict with
      | chose kind' =>
        rw [wrap_of_chose hbody]
        split
        · exact Verdict.noConfusion
        · exact ih rfl
      | _ =>
        rw [if_pos (by rw [Reading.wrap, hbody])]
        rw [Reading.wrap, hbody]
        exact fun hchose => Verdict.noConfusion (hbody.symm.trans hchose)
    · exact fun hchose => Verdict.noConfusion (h.symm.trans hchose)

/-- A kind that is settled is one of those that the phrase may settle, unless a rule settles it. -/
theorem contains_chosen_or {phrase : Phrase Rule} {state : ParseState} {kind : Kind}
    (hverdict : (phrase.draw drawRule state).verdict = .chose kind) :
    phrase.chosen.contains kind = true ∨
      ∃ rule state', (drawRule rule state').verdict = .chose kind ∧
        (Quiet (phrase.draw drawRule state) → Quiet (drawRule rule state')) := by
  -- a part of a quiet reading is quiet, so a rule that settles the kind may be looked for in the
  -- part
  have hsettled {whole part : Prop} (hpart : whole → part) :
      (∃ rule state', (drawRule rule state').verdict = .chose kind ∧
        (part → Quiet (drawRule rule state'))) →
      ∃ rule state', (drawRule rule state').verdict = .chose kind ∧
        (whole → Quiet (drawRule rule state')) := by
    rintro ⟨rule, state', hrule, hquiet⟩
    exact ⟨rule, state', hrule, fun h => hquiet (hpart h)⟩
  induction phrase generalizing state with
  | choose wanted =>
    obtain rfl := Verdict.chose.inj hverdict
    simp [chosen, KindSet.contains_single]
  | seq first second _ ih =>
    exact (ih hverdict).imp_right (hsettled fun h => h.of_andThen.2)
  | both first second _ ih =>
    -- only the second phrase can settle the kind, since a first one that did would be followed by
    -- it
    simp only [draw] at hverdict ⊢
    split at hverdict
    · next hv => cases hv.symm.trans hverdict
    · next hv =>
      rw [if_neg hv]
      exact (ih hverdict).imp_right (hsettled fun h => h.of_andThen.2)
  | branch test yes no ih ih' =>
    rw [chosen, KindSet.contains_union, Bool.or_eq_true]
    simp only [draw] at hverdict ⊢
    split at hverdict
    · next ht =>
      rw [if_pos ht]
      exact (ih hverdict).imp_left Or.inl
    · next ht =>
      rw [if_neg ht]
      exact (ih' hverdict).imp_left Or.inr
  | look probe yes no _ ih ih' =>
    rw [chosen, KindSet.contains_union, Bool.or_eq_true]
    simp only [draw] at hverdict ⊢
    split at hverdict
    · next hc =>
      rw [if_pos hc]
      exact (ih hverdict).imp Or.inl (hsettled fun h => h.of_instead)
    · next hc =>
      rw [if_neg hc]
      exact (ih' hverdict).imp Or.inr (hsettled fun h => h.of_instead)
  | attempt body yes no _ ih ih' =>
    rw [chosen, KindSet.contains_union, Bool.or_eq_true]
    simp only [draw] at hverdict ⊢
    split at hverdict
    · next hc =>
      rw [if_pos hc]
      exact (ih hverdict).imp Or.inl (hsettled fun h => h.of_andThen.2)
    · next hc =>
      rw [if_neg hc]
      exact (ih' hverdict).imp Or.inr (hsettled fun h => h.of_instead)
  | slot field body ih =>
    rw [draw, fill_verdict] at hverdict
    exact (ih hverdict).imp_right (hsettled fun h => h.of_fill)
  | absorb body ih =>
    exact (ih hverdict).imp_right (hsettled fun h => ⟨h.kept, h.silent⟩)
  | nested body ih =>
    simp only [draw] at hverdict ⊢
    split at hverdict
    · cases hverdict
    · next hroom =>
      rw [if_neg hroom]
      exact ih hverdict
  | call rule => exact Or.inr ⟨rule, state, hverdict, id⟩
  | take field => cases (verdict_taken state field).symm.trans hverdict
  | expect wanted field =>
    simp only [draw] at hverdict
    split at hverdict
    · cases (verdict_taken state field).symm.trans hverdict
    · cases hverdict
  | close wanted =>
    simp only [draw] at hverdict
    split at hverdict
    · cases (verdict_taken state none).symm.trans hverdict
    · cases hverdict
  | loop test body _ => cases (drawLoop_verdict _ _ _ _).symm.trans hverdict
  | node body _ => exact absurd hverdict (close_verdict _ kind)
  | chain head test field body _ _ =>
    simp only [draw] at hverdict
    split at hverdict
    · next hv => exact absurd hverdict (drawChain_ne_chose hv)
    · cases hverdict
  | recover element _ =>
    simp only [draw] at hverdict
    split at hverdict <;> cases hverdict
  | _ => cases hverdict

/-- A kind that a quiet reading settles is one of those that the phrase may settle. -/
theorem contains_chosen (hrules : RulesMake results drawRule) {phrase : Phrase Rule}
    {state : ParseState} (hquiet : Quiet (phrase.draw drawRule state)) {kind : Kind}
    (hverdict : (phrase.draw drawRule state).verdict = .chose kind) :
    phrase.chosen.contains kind = true := by
  rcases contains_chosen_or hverdict with hchosen | ⟨rule, state', hrule, hquiet'⟩
  · exact hchosen
  · cases (hrules rule state' (hquiet' hquiet)).1.symm.trans hrule

/-- Unless it has something to report, a phrase that settles a kind comes out with one. -/
theorem chose_of_settles {phrase : Phrase Rule} (h : phrase.settles = true) {state : ParseState}
    (hquiet : Quiet (phrase.draw drawRule state)) :
    ∃ kind, (phrase.draw drawRule state).verdict = .chose kind := by
  induction phrase generalizing state with
  | choose kind => exact ⟨kind, rfl⟩
  | missing what => exact absurd hquiet.silent (by simp [draw, failing])
  | refuse message => exact absurd hquiet.silent (by simp [draw, failing])
  | seq first second _ ih => exact ih h hquiet.of_andThen.2
  | branch test yes no ih ih' =>
    obtain ⟨hyes, hno⟩ := (Bool.and_eq_true _ _).mp h
    simp only [draw] at hquiet ⊢
    split at hquiet
    · next ht =>
      rw [if_pos ht]
      exact ih hyes hquiet
    · next ht =>
      rw [if_neg ht]
      exact ih' hno hquiet
  | look probe yes no _ ih ih' =>
    obtain ⟨hyes, hno⟩ := (Bool.and_eq_true _ _).mp h
    simp only [draw] at hquiet ⊢
    split at hquiet
    · next hc =>
      rw [if_pos hc]
      exact ih hyes hquiet.of_instead
    · next hc =>
      rw [if_neg hc]
      exact ih' hno hquiet.of_instead
  | attempt body yes no _ ih ih' =>
    obtain ⟨hyes, hno⟩ := (Bool.and_eq_true _ _).mp h
    simp only [draw] at hquiet ⊢
    split at hquiet
    · next hc =>
      rw [if_pos hc]
      exact ih hyes hquiet.of_andThen.2
    · next hc =>
      rw [if_neg hc]
      exact ih' hno hquiet.of_instead
  | absorb body ih => exact ih h ⟨hquiet.kept, hquiet.silent⟩
  | nested body ih =>
    have hdraw := draw_nested_of_quiet hquiet
    rw [hdraw] at hquiet ⊢
    exact ih h hquiet
  | _ => cases h

/-- Unless it has something to report, a phrase makes a node of the kinds that `made` tells. -/
theorem makes_of_made (hrules : RulesMake results drawRule) {phrase : Phrase Rule}
    {kinds : KindSet} (h : phrase.made results = some kinds) {state : ParseState}
    (hquiet : Quiet (phrase.draw drawRule state)) :
    Makes kinds (phrase.draw drawRule state) := by
  have hfirst {a b : KindSet} {kind : Kind} (hk : a.contains kind = true) :
      (a.union b).contains kind = true := by
    rw [KindSet.contains_union, hk, Bool.true_or]
  have hsecond {a b : KindSet} {kind : Kind} (hk : b.contains kind = true) :
      (a.union b).contains kind = true := by
    rw [KindSet.contains_union, hk, Bool.or_true]
  induction phrase generalizing state kinds with
  | missing what => exact absurd hquiet.silent (by simp [draw, failing])
  | refuse message => exact absurd hquiet.silent (by simp [draw, failing])
  | call rule =>
    obtain rfl := Option.some.inj h
    exact hrules rule state hquiet
  | node body _ =>
    simp only [made] at h
    split at h
    · next hs =>
      obtain rfl := Option.some.inj h
      have hbody : Quiet (body.draw drawRule state) := hquiet.of_close
      -- without anything to report, the body settles a kind, and it is among those that it may
      -- settle
      obtain ⟨kind, hverdict⟩ := chose_of_settles hs hbody
      have hkind := contains_chosen hrules hbody hverdict
      refine ⟨?_, kind, none, (body.draw drawRule state).shapes, ?_, hkind⟩ <;>
        simp [draw, close_of_chose hverdict]
    · cases h
  | slot field body ih =>
    obtain ⟨kind, children, hshapes, hverdict, hkind, -⟩ := (ih h hquiet.of_fill).fill
      (field (state.moveTo (body.draw drawRule state).lexer).kind)
    exact ⟨hverdict, kind, _, children, hshapes, hkind⟩
  | nested body ih =>
    have hdraw := draw_nested_of_quiet hquiet
    rw [hdraw] at hquiet ⊢
    exact ih h hquiet
  | branch test yes no ih ih' =>
    simp only [made, Option.bind_eq_bind, Option.bind_eq_some_iff] at h
    obtain ⟨a, ha, b, hb, hab⟩ := h
    obtain rfl := Option.some.inj hab
    simp only [draw] at hquiet ⊢
    split at hquiet
    · next ht =>
      rw [if_pos ht]
      exact (ih ha hquiet).mono fun _ => hfirst
    · next ht =>
      rw [if_neg ht]
      exact (ih' hb hquiet).mono fun _ => hsecond
  | look probe yes no _ ih ih' =>
    simp only [made, Option.bind_eq_bind, Option.bind_eq_some_iff] at h
    obtain ⟨a, ha, b, hb, hab⟩ := h
    obtain rfl := Option.some.inj hab
    simp only [draw] at hquiet ⊢
    split at hquiet
    · next hc =>
      rw [if_pos hc]
      exact (ih ha hquiet.of_instead).mono fun _ => hfirst
    · next hc =>
      rw [if_neg hc]
      exact (ih' hb hquiet.of_instead).mono fun _ => hsecond
  | chain head test field body ih _ =>
    simp only [made, Option.map_eq_some_iff] at h
    obtain ⟨a, ha, rfl⟩ := h
    obtain ⟨hverdict, kind, slot, children, hshapes, hkind⟩ := ih ha (quiet_of_chain hquiet)
    -- Every round puts a node of a kind that the body settles around the one before.
    obtain ⟨last, hnode, hlast, ⟨kind', slot', children', rfl, hkind'⟩, -⟩ :=
      chain_induction
        (fun _ shape => ∃ kind slot children, shape = .node kind slot children ∧
          (a.union body.chosen).contains kind = true)
        hquiet hverdict hshapes ⟨kind, slot, children, rfl, hfirst hkind⟩
        (fun _ _ kind _ _ hstep hchose =>
          ⟨kind, none, _, rfl, hsecond (contains_chosen hrules hstep hchose)⟩)
    exact ⟨hnode, kind', slot', children', hlast, hkind'⟩
  | _ => cases h

end Phrase

end ScriptTree

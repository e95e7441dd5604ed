import ScriptTree.Proofs.Grammar.Sound
import ScriptTree.Proofs.Lexer.Approach
import ScriptTree.Proofs.Parser.Alike
import ScriptTree.Proofs.Parser.Extent

/-!
Watching a phrase on its way to a stop. A phrase is followed with sights from a place where ordinary
reading comes to the stop. If it can be followed to its end, every reading of the phrase that fails
complains at the stop or before it: behind the stop there are only phrases that cannot fail.
-/

namespace ScriptTree

/-- What can be known behind a phrase that has not failed: a sight if the phrase has not come to the
stop, and whether it may have gone on from there, in which case nothing may fail any more. -/
structure Outlook where
  sight : Option Sight
  past : Bool
  deriving DecidableEq, Repr, Inhabited

def Sight.anyRoom (sight : Sight) : Sight :=
  { sight with room := none }

theorem Sight.Sees.anyRoom {sight : Sight} {origin : Nat} {state state' : ParseState}
    (h : sight.Sees origin state) (hlexer : state'.lexer = state.lexer) :
    sight.anyRoom.Sees origin state' := by
  obtain ⟨lexer, events, diagnostics, failures, depth, limit, size, misused⟩ := state
  obtain rfl : state'.lexer = lexer := hlexer
  exact ⟨h.behind, h.here, h.next, h.after, nofun, h.label, h.moved⟩

namespace Outlook

def nowhere : Outlook :=
  ⟨none, false⟩

def stays (sight : Sight) : Outlook :=
  ⟨some sight, false⟩

def join (a b : Outlook) : Outlook :=
  ⟨Sight.join a.sight b.sight, a.past || b.past⟩

def after (first second : Outlook) : Outlook :=
  ⟨second.sight, first.past || second.past⟩

def anyRoom (outlook : Outlook) : Outlook :=
  ⟨outlook.sight.map Sight.anyRoom, outlook.past⟩

def from? (sight : Option Sight) (heed : Sight → Option Outlook) : Option Outlook :=
  match sight with
  | none => some nowhere
  | some sight => heed sight

def round (test : Test) (heed : Sight → Option Outlook) (sight : Sight) :
    Option (Option Sight) := do
  let outlook ← from? (sight.assume test true) heed
  if outlook.past then none else some outlook.sight

end Outlook

namespace Watch

def kinds (watch : Watch) : KindSet :=
  watch.allowed.insert watch.stop

def vague (watch : Watch) : Sight :=
  { Sight.vague none with here := watch.kinds }

def bracesBarred (watch : Watch) (sight : Sight) : Bool :=
  watch.bars && sight.here.isSubset (.single .eq) && sight.behind.isDisjoint angleKinds

def pass (watch : Watch) (sight : Sight) : Option Sight :=
  (sight.narrow 0 (·.inter watch.allowed)).bind fun known =>
    let kinds := if watch.bracesBarred known then watch.kinds.without (.single .leftBrace)
      else watch.kinds
    known.pass.bind (·.narrow 0 (·.inter kinds))

end Watch

namespace Phrase

open Outlook

variable {Rule : Type}

/-- Whether a phrase never fails by itself: its complaints are dealt with in it. -/
def isUnfailing : Phrase Rule → Bool
  | .seq first second | .both first second => first.isUnfailing && second.isUnfailing
  | .branch _ yes no | .look _ yes no | .attempt _ yes no => yes.isUnfailing && no.isUnfailing
  | .chain head _ _ body => head.isUnfailing && body.isUnfailing
  | .loop _ body | .node body | .slot _ body => body.isUnfailing
  | .expect _ _ | .missing _ | .refuse _ | .nested _ | .call _ => false
  | _ => true

def heed (watch : Watch) (calls : Rule → Option Bool) : Phrase Rule → Sight → Option Outlook
  | .done, sight | .reject, sight | .choose _, sight => some (stays sight)
  | .take _, sight => some ⟨watch.pass sight, sight.here.contains watch.stop⟩
  | .expect kind _, sight =>
    let found := sight.narrow 0 (·.inter (.single kind))
    some ⟨found.bind watch.pass, found.isSome && kind == watch.stop⟩
  | .missing _, _ | .refuse _, _ => some nowhere
  | .demand kind, sight => some ⟨sight.narrow 0 (·.inter (.single kind)), false⟩
  | .relex mode, sight =>
    if mode = .angle && sight.moved then some (stays watch.vague.onward) else none
  | .seq first second, sight => do
    let outlook ← first.heed watch calls sight
    let rest ← from? outlook.sight (second.heed watch calls)
    if outlook.past && !second.isUnfailing then none else return outlook.after rest
  | .both first second, sight => do
    let outlook ← first.heed watch calls sight
    let rest ← from? outlook.sight (second.heed watch calls)
    if outlook.past && !second.isUnfailing then none else return outlook.join rest
  | .branch test yes no, sight => do
    let first ← from? (sight.assume test true) (yes.heed watch calls)
    let second ← from? (sight.assume test false) (no.heed watch calls)
    return first.join second
  | .loop test body, sight => do
    let head ← sight.steady? (round test (body.heed watch calls))
    return stays head
  | .node body, sight | .slot _ body, sight => body.heed watch calls sight
  | .chain head test _ body, sight => do
    let outlook ← head.heed watch calls sight
    let sight ← outlook.sight
    let head ← sight.steady? (round test (body.heed watch calls))
    if outlook.past then none else return stays head
  | .look _ yes no, sight => do
    let first ← yes.heed watch calls sight
    let second ← no.heed watch calls sight
    return first.join second
  | .attempt body yes no, sight => do
    let tried ← body.heed watch calls sight
    let rest ← from? tried.sight (yes.heed watch calls)
    let other ← no.heed watch calls sight
    if tried.past && !yes.isUnfailing then none else return (tried.after rest).join other
  | .close _, _ | .blame _ _, _ | .recover _, _ | .absorb _, _ => some ⟨none, true⟩
  | .nested body, sight => (body.heed watch calls sight.anyRoom).map Outlook.anyRoom
  | .call rule, sight =>
    (calls rule).map fun past => ⟨some { watch.vague with moved := sight.moved }, past⟩

end Phrase

namespace Watch

/-- Where ordinary reading comes to the stop at an offset. Behind the origin, the lookahead is read
as an ordinary token or with `>` on its own. -/
structure Stands (watch : Watch) (origin offset : Nat) (lexer : Lexer) : Prop where
  placed : lexer.Placed
  origin_le : origin ≤ lexer.start.offset
  nears : watch.Nears offset lexer
  mode : origin < lexer.start.offset → lexer.mode = .plain ∨ lexer.mode = .angle

variable {watch : Watch} {origin offset : Nat} {state : ParseState} {lexer : Lexer} {sight : Sight}

theorem contains_kinds {kind : Kind} :
    watch.kinds.contains kind = true ↔ watch.allowed.contains kind = true ∨ kind = watch.stop := by
  rw [kinds, KindSet.insert, KindSet.contains_union, KindSet.contains_single, Bool.or_eq_true,
    beq_iff_eq]
  exact or_congr_right eq_comm

theorem Nears.kind (h : watch.Nears offset lexer) :
    watch.kinds.contains lexer.current.kind = true := by
  cases h with
  | stop kind _ => exact contains_kinds.mpr (Or.inr kind)
  | step kind _ _ => exact contains_kinds.mpr (Or.inl kind)

/-- Where the way starts, nothing is known of the mode of reading. -/
theorem Nears.stands (h : watch.Nears offset lexer) (hplaced : lexer.Placed) :
    watch.Stands lexer.start.offset offset lexer :=
  ⟨hplaced, Nat.le_refl _, h, fun hlt => absurd hlt (Nat.lt_irrefl _)⟩

namespace Stands

theorem kind_ne_eof (hkind : watch.allowed.contains lexer.current.kind = true) :
    lexer.current.kind ≠ .eof := by
  intro heof
  rw [heof, watch.eof_not_allowed] at hkind
  cases hkind

/-- A token that is not the stop is taken. -/
theorem advance (h : watch.Stands origin offset lexer)
    (hkind : watch.allowed.contains lexer.current.kind = true) :
    watch.Stands origin offset lexer.advance ∧
      (watch.bars = true → lexer.Assigns → lexer.advance.current.kind ≠ .leftBrace) := by
  have hlt : lexer.start.offset < lexer.next.offset := h.placed.offset_lt (kind_ne_eof hkind)
  cases h.nears with
  | stop kind _ =>
    rw [kind, watch.stop_not_allowed] at hkind
    cases hkind
  | step _ brace rest =>
    refine ⟨⟨lexer.advance_placed, ?_, rest, fun _ => Or.inl rfl⟩, brace⟩
    exact Nat.le_trans h.origin_le (Nat.le_of_lt hlt)

/-- The lookahead is read with `>` on its own. -/
theorem relex (h : watch.Stands origin offset lexer) (hmoved : origin < lexer.start.offset) :
    watch.Stands origin offset (lexer.relex .angle) := by
  have hmode := h.mode hmoved
  refine ⟨h.placed.relex _, ?_, h.nears.relex h.placed hmode, fun _ => ?_⟩
  · rw [Lexer.relex_start]
    exact h.origin_le
  · unfold Lexer.relex
    split
    · exact hmode
    · exact Or.inr rfl

theorem vague_sees (h : watch.Stands origin offset state.lexer) :
    watch.vague.Sees origin state :=
  ⟨KindSet.contains_full _, h.nears.kind, KindSet.contains_full _, KindSet.contains_full _, nofun,
    nofun, nofun⟩

/-- What is known behind a token that is not the stop. -/
theorem finds_pass (h : watch.Stands origin offset state.lexer) (hsees : sight.Sees origin state)
    (hkind : watch.allowed.contains state.kind = true) :
    Sight.Finds (watch.pass sight) origin (state.moveTo state.lexer.advance) := by
  obtain ⟨hadvance, hbrace⟩ := h.advance hkind
  have hfound : Sight.Finds (sight.narrow 0 (·.inter watch.allowed)) origin state := by
    refine hsees.narrow fun set hset => ?_
    rw [KindSet.contains_inter, hset]
    exact hkind
  obtain ⟨known, hknown, hsees⟩ := hfound
  obtain ⟨behind, hbehind, hsees'⟩ := hsees.pass h.placed (kind_ne_eof hkind) h.origin_le
  rw [pass, hknown, Option.bind_some, hbehind, Option.bind_some]
  refine hsees'.narrow fun set hset => ?_
  rw [KindSet.contains_inter, hset, Bool.true_and]
  split
  · next hbarred =>
    -- no opening brace stands behind this `=`
    simp only [bracesBarred, Bool.and_eq_true] at hbarred
    obtain ⟨⟨hbars, hequals⟩, hdisjoint⟩ := hbarred
    have hassigns : state.lexer.Assigns := by
      have heq := KindSet.contains_of_isSubset hequals hsees.here
      rw [KindSet.contains_single, beq_iff_eq] at heq
      exact ⟨heq.symm, KindSet.not_contains_of_isDisjoint hdisjoint hsees.behind⟩
    rw [KindSet.contains_without, KindSet.contains_single, Bool.and_eq_true, Bool.not_eq_true',
      beq_eq_false_iff_ne]
    exact ⟨hadvance.nears.kind, Ne.symm (hbrace hbars hassigns)⟩
  · exact hadvance.nears.kind

end Stands

inductive Leads (watch : Watch) (origin offset : Nat) (outlook : Outlook) (state : ParseState)
    (reading : Reading) : Prop where
  | complains {report : Diagnostic} (failed : 0 < reading.failures)
      (first : reading.reports.head? = some report) (le : report.span.start ≤ offset)
  | stays (silent : reading.reports = []) (fits : reading.failures = 0)
      (finds : Sight.Finds outlook.sight origin (state.moveTo reading.lexer))
      (stands : watch.Stands origin offset reading.lexer)
  | past (may : outlook.past = true) (fits : reading.failures = 0)

namespace Leads

variable {outlook other rest : Outlook} {reading first second : Reading}

theorem of_failures (h : watch.Leads origin offset outlook state reading)
    (hfailed : reading.failures ≠ 0) :
    ∃ report, reading.reports.head? = some report ∧ report.span.start ≤ offset := by
  cases h with
  | complains _ hfirst hle => exact ⟨_, hfirst, hle⟩
  | stays _ fits _ _ => exact absurd fits hfailed
  | past _ fits => exact absurd fits hfailed

/-- Only failures, reports and the lexer matter. -/
theorem congr (h : watch.Leads origin offset outlook state first)
    (hfailures : second.failures = first.failures) (hreports : second.reports = first.reports)
    (hlexer : second.lexer = first.lexer) : watch.Leads origin offset outlook state second := by
  cases h with
  | complains failed first le => exact .complains (hfailures ▸ failed) (hreports ▸ first) le
  | stays silent fits finds stands =>
    exact .stays (hreports ▸ silent) (hfailures ▸ fits) (hlexer ▸ finds) (hlexer ▸ stands)
  | past may fits => exact .past may (hfailures ▸ fits)

theorem weaken (h : watch.Leads origin offset outlook state reading)
    (hsight : Sight.Finds outlook.sight origin (state.moveTo reading.lexer) →
      Sight.Finds other.sight origin (state.moveTo reading.lexer))
    (hpast : outlook.past = true → other.past = true) :
    watch.Leads origin offset other state reading := by
  cases h with
  | complains failed first le => exact .complains failed first le
  | stays silent fits finds stands => exact .stays silent fits (hsight finds) stands
  | past may fits => exact .past (hpast may) fits

theorem join_left (h : watch.Leads origin offset outlook state reading) (other : Outlook) :
    watch.Leads origin offset (outlook.join other) state reading :=
  h.weaken (·.join_left _) fun hpast => by simp [Outlook.join, hpast]

theorem join_right (h : watch.Leads origin offset outlook state reading) (other : Outlook) :
    watch.Leads origin offset (other.join outlook) state reading :=
  h.weaken (·.join_right _) fun hpast => by simp [Outlook.join, hpast]

/-- The lexer in front of a reading does not matter. -/
theorem moveTo_iff {lexer : Lexer} :
    watch.Leads origin offset outlook (state.moveTo lexer) reading ↔
      watch.Leads origin offset outlook state reading := by
  constructor <;> intro h <;> cases h with
  | complains failed first le => exact .complains failed first le
  | stays silent fits finds stands => exact .stays silent fits finds stands
  | past may fits => exact .past may fits

/-- A reading goes on with another one, which cannot fail if the stop may be behind. -/
theorem andThen (h : watch.Leads origin offset outlook state first)
    (hpast : outlook.past = true → second.failures = 0)
    (hnext : Sight.Finds outlook.sight origin (state.moveTo first.lexer) →
      watch.Stands origin offset first.lexer →
      watch.Leads origin offset rest (state.moveTo first.lexer) second) :
    watch.Leads origin offset (outlook.after rest) state (first.andThen second) := by
  cases h with
  | complains failed first le =>
    refine .complains (Nat.lt_of_lt_of_le failed (Nat.le_add_right _ _)) ?_ le
    simp only [Reading.andThen, List.head?_append, first, Option.some_or]
  | stays silent fits finds stands =>
    have hboth : watch.Leads origin offset rest state (first.andThen second) := by
      refine (moveTo_iff.mp (hnext finds stands)).congr ?_ ?_ rfl
      · simp [Reading.andThen, fits]
      · simp [Reading.andThen, silent]
    exact hboth.weaken id fun hpast => by simp [Outlook.after, hpast]
  | past may fits =>
    refine .past (by simp [Outlook.after, may]) ?_
    simp [Reading.andThen, fits, hpast may]

/-- A reading that has not come to the stop goes on with another one. -/
theorem andThen_stays (h : watch.Leads origin offset (.stays sight) state first)
    (hnext : sight.Sees origin (state.moveTo first.lexer) →
      watch.Stands origin offset first.lexer →
      watch.Leads origin offset rest (state.moveTo first.lexer) second) :
    watch.Leads origin offset rest state (first.andThen second) := by
  refine h.andThen nofun fun ⟨known, hknown, hsees⟩ => ?_
  obtain rfl := Option.some.inj hknown
  exact hnext hsees

end Leads

end Watch

namespace Phrase

open Reading ParseState Watch

variable {Rule : Type} {drawRule : Rule → ParseState → Reading} {watch : Watch}
  {calls : Rule → Option Bool} {origin offset : Nat}

theorem failures_drawLoop {test : ParseState → Bool} {step : ParseState → Reading}
    (h : ∀ state, (step state).failures = 0) (state : ParseState) (limit : Nat) :
    (drawLoop test step state limit).failures = 0 := by
  induction limit generalizing state with
  | zero => rfl
  | succ limit ih =>
    simp only [drawLoop]
    split
    · split
      · exact h state
      · simp [andThen, h state, ih]
    · rfl

theorem failures_drawChain {test : ParseState → Bool} {field : Kind → Field}
    {step : ParseState → Reading} (h : ∀ state, (step state).failures = 0) (state : ParseState)
    {reading : Reading} (hreading : reading.failures = 0) (limit : Nat) :
    (drawChain test field step state reading limit).failures = 0 := by
  induction limit generalizing state reading with
  | zero => exact hreading
  | succ limit ih =>
    have hwrap (state : ParseState) (field : Field) :
        ((reading.fill field).wrap (step state)).failures = 0 := by
      rw [failures_wrap, failures_fill, hreading, h state]
    simp only [drawChain]
    split
    · split
      · exact hwrap _ _
      · exact ih _ (hwrap _ _)
    · exact hreading

/-- A phrase that never fails by itself leaves no failure. -/
theorem failures_of_isUnfailing {phrase : Phrase Rule} (h : phrase.isUnfailing = true)
    (state : ParseState) : (phrase.draw drawRule state).failures = 0 := by
  have htaken (state : ParseState) (field : Option Field) : (taken state field).failures = 0 := by
    unfold taken
    split <;> rfl
  induction phrase generalizing state with
  | take field => exact htaken state field
  | close kind =>
    simp only [draw]
    split
    · exact htaken state none
    · rfl
  | seq first second ih ih' =>
    simp only [isUnfailing, Bool.and_eq_true] at h
    simp [draw, andThen, ih h.1, ih' h.2]
  | both first second ih ih' =>
    simp only [isUnfailing, Bool.and_eq_true] at h
    simp only [draw]
    split
    · exact ih h.1 state
    · simp [andThen, ih h.1, ih' h.2]
  | branch test yes no ih ih' =>
    simp only [isUnfailing, Bool.and_eq_true] at h
    simp only [draw]
    split
    · exact ih h.1 state
    · exact ih' h.2 state
  | loop test body ih => exact failures_drawLoop (ih h) state _
  | node body ih =>
    rw [draw, failures_close]
    exact ih h state
  | slot field body ih =>
    simp only [draw, failures_fill]
    exact ih h state
  | chain head test field body ih ih' =>
    simp only [isUnfailing, Bool.and_eq_true] at h
    simp only [draw]
    split
    · exact failures_drawChain (ih' h.2) state (ih h.1 state) _
    · exact ih h.1 state
  | look probe yes no _ ih ih' =>
    simp only [isUnfailing, Bool.and_eq_true] at h
    simp only [draw, instead]
    split
    · exact ih h.1 state
    · exact ih' h.2 state
  | attempt body yes no _ ih ih' =>
    simp only [isUnfailing, Bool.and_eq_true] at h
    simp only [draw]
    split
    · next hclean =>
      simp only [Reading.isClean, Bool.and_eq_true, beq_iff_eq] at hclean
      simp [andThen, hclean.2, ih h.1]
    · exact ih' h.2 state
  | recover element _ =>
    simp only [draw]
    split
    · next hfailures => exact hfailures
    · rfl
  | expect _ _ => cases h
  | missing _ => cases h
  | refuse _ => cases h
  | nested _ _ => cases h
  | call _ => cases h
  | _ => rfl

/-- A way of drawing does what an outlook says, from wherever a sight sees the way to the stop. -/
def Heeds (watch : Watch) (origin offset : Nat) (draw : ParseState → Reading) (sight : Sight)
    (outlook : Outlook) : Prop :=
  ∀ state : ParseState, sight.Sees origin state → watch.Stands origin offset state.lexer →
    (draw state).misused = false → watch.Leads origin offset outlook state (draw state)

theorem leads_from? {found : Option Sight} {heed : Sight → Option Outlook} {outlook : Outlook}
    (h : Outlook.from? found heed = some outlook) {state : ParseState} {reading : Reading}
    (hfinds : Sight.Finds found origin state)
    (hheed : ∀ sight, heed sight = some outlook → sight.Sees origin state →
      watch.Leads origin offset outlook state reading) :
    watch.Leads origin offset outlook state reading := by
  obtain ⟨sight, rfl, hsees⟩ := hfinds
  exact hheed sight h hsees

theorem leads_failing {state : ParseState} (outlook : Outlook)
    (h : watch.Stands origin offset state.lexer) {report : Diagnostic}
    (hreport : report.span = state.current.span) :
    watch.Leads origin offset outlook state (failing state report) := by
  refine .complains Nat.one_pos rfl ?_
  rw [hreport]
  exact h.nears.le h.placed

/-- The lookahead is taken: it is the stop, or the stop is still to come. -/
theorem leads_taken {state : ParseState} {sight : Sight} (hsees : sight.Sees origin state)
    (h : watch.Stands origin offset state.lexer) (field : Option Field) {past : Bool}
    (hpast : state.kind = watch.stop → past = true) :
    watch.Leads origin offset ⟨watch.pass sight, past⟩ state (taken state field) := by
  rcases contains_kinds.mp h.nears.kind with hkind | hkind
  · have heof : state.kind ≠ .eof := Stands.kind_ne_eof hkind
    rw [taken, if_neg heof]
    exact .stays rfl rfl (h.finds_pass hsees hkind) (h.advance hkind).1
  · refine .past (hpast hkind) ?_
    unfold taken
    split <;> rfl

section Repetition

variable {test : Test} {heed : Sight → Option Outlook} {step : ParseState → Reading} {head : Sight}
  {state : ParseState}

/-- A round complains, or leads to where it started from. -/
theorem leads_round
    (hheed : ∀ sight outlook, heed sight = some outlook →
      Heeds watch origin offset step sight outlook)
    (hsteady : Sight.isSteady (Outlook.round test heed) head = true)
    (hsees : head.Sees origin state) (hstands : watch.Stands origin offset state.lexer)
    (htest : test.holds state = true) (hkept : (step state).misused = false) :
    watch.Leads origin offset (.stays head) state (step state) := by
  obtain ⟨start, hstart, hsees⟩ := hsees.assume test
  rw [htest] at hstart
  simp only [Sight.isSteady, Outlook.round, hstart, Outlook.from?] at hsteady
  cases houtlook : heed start with
  | none => simp [houtlook] at hsteady
  | some outlook =>
    have hleads := hheed start outlook houtlook state hsees hstands hkept
    cases hpast : outlook.past with
    | true => simp [houtlook, hpast] at hsteady
    | false =>
      refine hleads.weaken ?_ fun hpast' => absurd hpast' (by simp [hpast])
      rintro ⟨known, hknown, hsees⟩
      simp [houtlook, hpast, hknown] at hsteady
      exact ⟨head, rfl, hsees.weaken hsteady⟩

/-- By induction on the rounds: a round that stays in front of the stop is followed by another one
from the same sight, and one that runs into it is the last. -/
theorem leads_drawLoop
    (hheed : ∀ sight outlook, heed sight = some outlook →
      Heeds watch origin offset step sight outlook)
    (hsteady : Sight.isSteady (Outlook.round test heed) head = true) {limit : Nat}
    (hsees : head.Sees origin state) (hstands : watch.Stands origin offset state.lexer)
    (hkept : (drawLoop (fun state => test.holds state) step state limit).misused = false) :
    watch.Leads origin offset (.stays head) state
      (drawLoop (fun state => test.holds state) step state limit) := by
  induction limit generalizing state with
  | zero => cases hkept
  | succ limit ih =>
    by_cases htest : test.holds state = true
    · have hround := leads_round hheed hsteady hsees hstands htest
        (misused_of_drawLoop htest hkept)
      simp only [drawLoop, if_pos htest] at hkept ⊢
      split
      · exact hround.congr rfl rfl rfl
      · next hverdict =>
        rw [if_neg hverdict] at hkept
        exact hround.andThen_stays fun hsees hstands =>
          ih hsees hstands (Bool.or_eq_false_iff.mp hkept).2
    · simp only [drawLoop, if_neg htest]
      exact .stays rfl rfl ⟨head, rfl, hsees⟩ hstands

/-- By induction on the rounds, as for loops; a node around others has the same reports. -/
theorem leads_drawChain {field : Kind → Field}
    (hheed : ∀ sight outlook, heed sight = some outlook →
      Heeds watch origin offset step sight outlook)
    (hsteady : Sight.isSteady (Outlook.round test heed) head = true) {reading : Reading}
    (hreading : watch.Leads origin offset (.stays head) state reading) {limit : Nat}
    (hkept : (drawChain (fun state => test.holds state) field step state reading limit).misused =
      false) :
    watch.Leads origin offset (.stays head) state
      (drawChain (fun state => test.holds state) field step state reading limit) := by
  induction limit generalizing state reading with
  | zero => cases hkept
  | succ limit ih =>
    simp only [drawChain] at hkept ⊢
    split at hkept
    · next htest =>
      rw [if_pos htest]
      split at hkept
      · next hmisused =>
        rw [hmisused] at hkept
        cases hkept
      · next hwrapped =>
        rw [if_neg hwrapped]
        obtain ⟨kind, hchose, -, -, hstep⟩ := chose_of_wrap (Bool.eq_false_iff.mpr hwrapped)
        have hlink : watch.Leads origin offset (.stays head) state
            (reading.andThen (step (state.moveTo reading.lexer))) :=
          hreading.andThen_stays fun hsees hstands =>
            leads_round hheed hsteady hsees hstands htest hstep
        refine Leads.moveTo_iff.mp (ih (Leads.moveTo_iff.mpr (hlink.congr ?_ ?_ ?_)) hkept)
        · rw [failures_wrap, failures_fill]
          rfl
        · rw [reports_wrap, reports_fill]
          rfl
        · exact wrap_lexer _ _
    · next htest =>
      rw [if_neg htest]
      exact hreading

end Repetition

theorem finds_narrow {state : ParseState} {sight : Sight} {kind : Kind}
    (h : sight.Sees origin state) (hkind : state.kind = kind) :
    Sight.Finds (sight.narrow 0 (·.inter (.single kind))) origin state := by
  refine h.narrow fun set hset => ?_
  rw [KindSet.contains_inter, hset, KindSet.contains_single, Bool.true_and, beq_iff_eq]
  exact hkind.symm

/-- A phrase that never fails by itself may go beyond the stop. -/
theorem leads_past {phrase : Phrase Rule} (h : phrase.isUnfailing = true) (sight : Option Sight)
    (state : ParseState) :
    watch.Leads origin offset ⟨sight, true⟩ state (phrase.draw drawRule state) :=
  .past rfl (failures_of_isUnfailing h state)

theorem eq_of_guard {past unfailing : Bool} {found outlook : Outlook}
    (h : (if past && !unfailing then none else some found) = some outlook) :
    (past = true → unfailing = true) ∧ found = outlook := by
  split at h
  · cases h
  · next hguard =>
    refine ⟨fun hpast => ?_, Option.some.inj h⟩
    simpa [hpast] using hguard

/-- What a phrase is followed to is where its readings lead. -/
theorem heeds_draw (hacc : ∀ rule, Accounts (drawRule rule))
    (hrules : ∀ rule past, calls rule = some past →
      Heeds watch origin offset (drawRule rule) watch.vague ⟨some watch.vague, past⟩)
    {phrase : Phrase Rule} {sight : Sight} {outlook : Outlook}
    (h : phrase.heed watch calls sight = some outlook) :
    Heeds watch origin offset (phrase.draw drawRule) sight outlook := by
  have hcomplaint (state : ParseState) (message : String) :
      (state.complaint message).span = state.current.span := by
    unfold complaint
    split <;> rfl
  induction phrase generalizing sight outlook with
  | done | reject | choose kind =>
    obtain rfl := Option.some.inj h
    exact fun state hsees hstands _ => .stays rfl rfl ⟨sight, rfl, hsees⟩ hstands
  | take field =>
    obtain rfl := Option.some.inj h
    intro state hsees hstands _
    refine leads_taken hsees hstands field fun hstop => ?_
    rw [← hstop]
    exact hsees.here
  | expect kind field =>
    obtain rfl := Option.some.inj h
    intro state hsees hstands _
    simp only [draw]
    split
    · next hkind =>
      obtain ⟨known, hknown, hsees⟩ := finds_narrow hsees hkind
      simp only [hknown, Option.bind_some, Option.isSome_some, Bool.true_and]
      refine leads_taken hsees hstands field fun hstop => ?_
      rw [← hkind, hstop, beq_self_eq_true]
    · exact leads_failing _ hstands (hcomplaint state _)
  | missing message | refuse message =>
    exact fun state _ hstands _ => leads_failing _ hstands (hcomplaint state _)
  | demand kind =>
    obtain rfl := Option.some.inj h
    intro state hsees hstands hkept
    have hkind : state.kind = kind := by simpa [draw] using hkept
    exact .stays rfl rfl (finds_narrow hsees hkind) hstands
  | relex mode =>
    -- reading again moves nothing on, so the stop is ahead only if something was taken before
    simp only [heed] at h
    split at h
    · next hmode =>
      obtain rfl := Option.some.inj h
      simp only [Bool.and_eq_true, decide_eq_true_eq] at hmode
      obtain ⟨rfl, hmoved⟩ := hmode
      intro state hsees hstands _
      have hbehind := hstands.relex (hsees.moved hmoved)
      have hsees' : watch.vague.Sees origin (state.moveTo (state.lexer.relex .angle)) :=
        Stands.vague_sees hbehind
      refine .stays rfl rfl ⟨_, rfl, hsees'.onward ?_⟩ hbehind
      show origin < (state.lexer.relex .angle).start.offset
      rw [Lexer.relex_start]
      exact hsees.moved hmoved
    · cases h
  | seq first second ih ih' =>
    obtain ⟨before, hfirst, h⟩ := Option.bind_eq_some_iff.mp h
    obtain ⟨rest, hsecond, h⟩ := Option.bind_eq_some_iff.mp h
    -- behind a first phrase that may go beyond the stop, the second one must not be able to fail
    obtain ⟨hpast, rfl⟩ := eq_of_guard h
    intro state hsees hstands hkept
    obtain ⟨hkept, hkept'⟩ := Bool.or_eq_false_iff.mp hkept
    refine (ih hfirst state hsees hstands hkept).andThen
      (fun hp => failures_of_isUnfailing (hpast hp) _) fun hfinds hstands => ?_
    exact leads_from? hsecond hfinds fun sight hheed hsees =>
      ih' hheed _ hsees hstands hkept'
  | both first second ih ih' =>
    obtain ⟨before, hfirst, h⟩ := Option.bind_eq_some_iff.mp h
    obtain ⟨rest, hsecond, h⟩ := Option.bind_eq_some_iff.mp h
    obtain ⟨hpast, rfl⟩ := eq_of_guard h
    intro state hsees hstands hkept
    have hleads := ih hfirst state hsees hstands (misused_of_both hkept)
    simp only [draw] at hkept ⊢
    split at hkept
    · next hverdict =>
      rw [if_pos hverdict]
      exact hleads.join_left _
    · next hverdict =>
      rw [if_neg hverdict]
      have hboth := hleads.andThen (fun hp => failures_of_isUnfailing (hpast hp) _)
        fun hfinds hstands => leads_from? hsecond hfinds fun sight hheed hsees =>
          ih' hheed _ hsees hstands (Bool.or_eq_false_iff.mp hkept).2
      exact hboth.weaken (·.join_right _) id
  | branch test yes no ih ih' =>
    obtain ⟨first, hyes, h⟩ := Option.bind_eq_some_iff.mp h
    obtain ⟨second, hno, h⟩ := Option.bind_eq_some_iff.mp h
    obtain rfl := Option.some.inj h
    intro state hsees hstands
    have hassume := hsees.assume test
    simp only [draw]
    split
    · next htest =>
      rw [htest] at hassume
      intro hkept
      exact (leads_from? hyes hassume fun sight hheed hsees =>
        ih hheed state hsees hstands hkept).join_left _
    · next htest =>
      rw [Bool.eq_false_iff.mpr htest] at hassume
      intro hkept
      exact (leads_from? hno hassume fun sight hheed hsees =>
        ih' hheed state hsees hstands hkept).join_right _
  | loop test body ih =>
    obtain ⟨head, hhead, h⟩ := Option.bind_eq_some_iff.mp h
    obtain rfl := Option.some.inj h
    obtain ⟨hknows, hsteady⟩ := Sight.steady?_spec hhead
    intro state hsees hstands hkept
    exact leads_drawLoop (fun _ _ => ih) hsteady (hsees.weaken hknows) hstands hkept
  | node body ih =>
    intro state hsees hstands hkept
    exact (ih h state hsees hstands (misused_of_close hkept)).congr (failures_close _)
      (reports_close _) (close_lexer _)
  | slot field body ih =>
    intro state hsees hstands hkept
    exact (ih h state hsees hstands (misused_of_fill hkept)).congr (failures_fill _ _)
      (reports_fill _ _) (fill_lexer _ _)
  | chain head test field body ih ih' =>
    obtain ⟨before, hhead, h⟩ := Option.bind_eq_some_iff.mp h
    obtain ⟨behind, hbehind, h⟩ := Option.bind_eq_some_iff.mp h
    obtain ⟨steady, hfound, h⟩ := Option.bind_eq_some_iff.mp h
    obtain ⟨hknows, hsteady⟩ := Sight.steady?_spec hfound
    split at h
    · cases h
    · next hpast =>
      obtain rfl := Option.some.inj h
      intro state hsees hstands hkept
      -- what is known behind the head is weakened to what every round keeps
      have hleads : watch.Leads origin offset (.stays steady) state (head.draw drawRule state) := by
        refine (ih hhead state hsees hstands (misused_of_chain hkept)).weaken ?_
          fun hp => absurd hp hpast
        rintro ⟨known, hknown, hsees⟩
        obtain rfl := Option.some.inj (hbehind.symm.trans hknown)
        exact ⟨steady, rfl, hsees.weaken hknows⟩
      simp only [draw] at hkept ⊢
      split at hkept
      · next hverdict =>
        rw [if_pos hverdict]
        exact leads_drawChain (fun _ _ => ih') hsteady hleads hkept
      · next hverdict =>
        rw [if_neg hverdict]
        exact hleads.congr rfl rfl rfl
  | look probe yes no _ ih ih' =>
    obtain ⟨first, hyes, h⟩ := Option.bind_eq_some_iff.mp h
    obtain ⟨second, hno, h⟩ := Option.bind_eq_some_iff.mp h
    obtain rfl := Option.some.inj h
    intro state hsees hstands hkept
    -- the probe is read from the same place and leaves nothing, so it is not followed
    have hkept := (Bool.or_eq_false_iff.mp hkept).2
    simp only [draw] at hkept ⊢
    split at hkept
    · next hclean =>
      rw [if_pos hclean]
      exact ((ih hyes state hsees hstands hkept).join_left _).congr rfl rfl rfl
    · next hclean =>
      rw [if_neg hclean]
      exact ((ih' hno state hsees hstands hkept).join_right _).congr rfl rfl rfl
  | attempt body yes no ih ih' ih'' =>
    obtain ⟨before, hbody, h⟩ := Option.bind_eq_some_iff.mp h
    obtain ⟨rest, hyes, h⟩ := Option.bind_eq_some_iff.mp h
    obtain ⟨other, hno, h⟩ := Option.bind_eq_some_iff.mp h
    obtain ⟨hpast, rfl⟩ := eq_of_guard h
    intro state hsees hstands hkept
    have hleads := ih hbody state hsees hstands (misused_of_attempt hkept)
    simp only [draw] at hkept ⊢
    split at hkept
    · next hclean =>
      rw [if_pos hclean]
      refine (hleads.andThen (fun hp => failures_of_isUnfailing (hpast hp) _)
        fun hfinds hstands => ?_).join_left _
      exact leads_from? hyes hfinds fun sight hheed hsees =>
        ih' hheed _ hsees hstands (Bool.or_eq_false_iff.mp hkept).2
    · next hclean =>
      rw [if_neg hclean]
      have hkept := (Bool.or_eq_false_iff.mp hkept).2
      exact ((ih'' hno state hsees hstands hkept).join_right _).congr rfl rfl rfl
  | close kind | blame shape reading _ _ | recover element _ | absorb body _ =>
    obtain rfl := Option.some.inj h
    exact fun state _ _ _ => leads_past rfl none state
  | nested body ih =>
    obtain ⟨inner, hinner, rfl⟩ := Option.map_eq_some_iff.mp h
    intro state hsees hstands
    simp only [draw]
    split
    · exact fun _ => leads_failing _ hstands rfl
    · intro hkept
      -- whether there is room for nesting is forgotten on the way in, and again on the way out
      have hdeep : sight.anyRoom.Sees origin { state with depth := state.depth + 1 } :=
        hsees.anyRoom rfl
      cases ih hinner _ hdeep hstands hkept with
      | complains failed first le => exact .complains failed first le
      | stays silent fits finds stands =>
        obtain ⟨known, hknown, hsees⟩ := finds
        refine .stays silent fits ⟨known.anyRoom, ?_, hsees.anyRoom rfl⟩ stands
        rw [Outlook.anyRoom, hknown]
        rfl
      | past may fits => exact .past may fits
  | call rule =>
    obtain ⟨past, hcalls, rfl⟩ := Option.map_eq_some_iff.mp h
    intro state hsees hstands hkept
    -- a rule is followed from any sight, so only what has been taken is kept of this one
    have hleads := hrules rule past hcalls state hstands.vague_sees hstands hkept
    refine hleads.weaken ?_ id
    rintro ⟨known, hknown, hsees'⟩
    obtain rfl := Option.some.inj hknown
    refine ⟨_, rfl, hsees'.behind, hsees'.here, hsees'.next, hsees'.after, hsees'.room,
      hsees'.label, ?_⟩
    intro hmoved
    exact Nat.lt_of_lt_of_le (hsees.moved hmoved) ((hacc rule state).offset_le hstands.placed)

/-- Whether a phrase can be followed from anywhere on the way to the stop. Unless it may go beyond
the stop, it leads to a place on the way again. -/
def keepsWatch (watch : Watch) (calls : Rule → Option Bool) (past : Bool) (phrase : Phrase Rule) :
    Bool :=
  (phrase.heed watch calls watch.vague).any fun outlook =>
    (past || !outlook.past) && Exits.leads outlook.sight (some watch.vague)

/-- Rules whose phrases can be followed do what is said of them. -/
theorem heeds_drawRule {grammar : Rule → Phrase Rule}
    (h : ∀ rule past, calls rule = some past →
      (grammar rule).keepsWatch watch calls past = true) (budget : Nat) (rule : Rule)
    (past : Bool) (hcalls : calls rule = some past) :
    Heeds watch origin offset (Phrase.drawRule grammar budget rule) watch.vague
      ⟨some watch.vague, past⟩ := by
  induction budget generalizing rule past with
  | zero =>
    intro state _ _ hkept
    cases hkept
  | succ budget ih =>
    obtain ⟨outlook, hheed, hkeeps⟩ := (Option.any_eq_true _ _).mp (h rule past hcalls)
    rw [Bool.and_eq_true] at hkeeps
    intro state hsees hstands hkept
    have hleads := heeds_draw (accounts_drawRule grammar budget) ih hheed state hsees hstands hkept
    refine hleads.weaken (Exits.leads_finds hkeeps.2) fun hpast => ?_
    simpa [hpast] using hkeeps.1

end Phrase

end ScriptTree

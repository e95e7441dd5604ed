import ScriptTree.Proofs.Grammar.File
import ScriptTree.Proofs.Parser.Frame
import ScriptTree.Proofs.Parser.Bounded
import ScriptTree.Proofs.Parser.Matching
import ScriptTree.Proofs.Tree.Compact

/-!
Marks: the nodes of a parse are begun, ended, moved into slots and opened in front of one another
through marks, while the events of all that are written down one by one, and a parse can go back to
where it was. As long as nodes are ended from the inside out, the tree that is built from the events
is the one that is put together directly, with two exceptions: a node that was begun in front of
another one must not be given up at once, and marks have 32 bits.
-/

namespace ScriptTree

/-- A call of a parse. A node is referred to by its mark, and a remembered state by the number of
those that were remembered after it. -/
inductive Call where
  | start
  | push (field : Option Field)
  | relex (mode : LexMode)
  | fail (message : String)
  | complete (mark : Nat) (kind : Kind)
  | abandon (mark : Nat)
  | setField (mark : Nat) (field : Field)
  | precede (mark : Nat)
  | checkpoint
  | rewind (depth : Nat)
  deriving Repr, Inhabited

structure Session where
  state : ParseState
  checkpoints : List Checkpoint

namespace Session

def ofText (text : String) (limit : Nat) : Session :=
  ⟨.ofText text limit, []⟩

def change (session : Session) (state : ParseState) : Session :=
  { session with state }

/-- Makes a call, unless a node would begin without a mark. -/
def perform (session : Session) : Call → Option Session
  | .start => session.state.openNode?.map session.change
  | .push field => some (session.change (session.state.push field))
  | .relex mode =>
    some (session.change { session.state with lexer := session.state.lexer.relex mode })
  | .fail message => some (session.change (session.state.fail message))
  | .complete mark kind => some (session.change (session.state.endNode mark (.chose kind)).2)
  | .abandon mark => some (session.change (session.state.endNode mark .failed).2)
  | .setField mark field =>
    some (session.change (session.state.setField (.node mark .tombstone) field))
  | .precede mark => (session.state.precede? mark).map session.change
  | .checkpoint =>
    some { session with checkpoints := session.state.checkpoint :: session.checkpoints }
  | .rewind depth =>
    match session.checkpoints.drop depth with
    | [] => some session
    | checkpoint :: older => some ⟨session.state.rewind checkpoint, checkpoint :: older⟩

def run (session : Session) (calls : List Call) : Option Session :=
  calls.foldlM perform session

end Session

/-- A draft that was remembered, and the lexer with it. It is `intact` as long as none of its nodes
has been ended, moved into a slot or preceded. -/
structure Saved where
  draft : Draft
  lexer : Lexer
  intact : Bool

/-- A draft with those it can go back to, the latest one first. -/
structure Desk where
  draft : Draft
  lexer : Lexer
  saved : List Saved

namespace Desk

def ofText (text : String) : Desk :=
  ⟨.empty, .ofText text, []⟩

def touch (mark : Nat) (saved : Saved) : Saved :=
  { saved with intact := saved.intact && decide (saved.draft.size ≤ mark) }

def change (desk : Desk) (mark : Nat) (draft : Option Draft) : Option Desk :=
  draft.map fun draft => { desk with draft, saved := desk.saved.map (touch mark) }

/-- Follows a call, unless it cannot be followed directly. A draft can be taken up again as long as
it is intact; what was put down since and the nodes that have begun since are gone then. -/
def step (desk : Desk) : Call → Option Desk
  | .start => some { desk with draft := desk.draft.start }
  | .push field =>
    some { desk with
      draft := desk.draft.push desk.lexer.current field
      lexer := desk.lexer.advance }
  | .relex mode => some { desk with lexer := desk.lexer.relex mode }
  | .fail _ => some desk
  | .complete mark kind => desk.change mark (desk.draft.complete mark kind)
  | .abandon mark => desk.change mark (desk.draft.abandon mark)
  | .setField mark field => desk.change mark (desk.draft.fill mark field)
  | .precede mark => desk.change mark (desk.draft.precede mark)
  | .checkpoint => some { desk with saved := ⟨desk.draft, desk.lexer, true⟩ :: desk.saved }
  | .rewind depth =>
    match desk.saved.drop depth with
    | [] => none
    | saved :: older =>
      if saved.intact then some ⟨saved.draft, saved.lexer, saved :: older⟩ else none

def run (desk : Desk) (calls : List Call) : Option Desk :=
  calls.foldlM step desk

/-- Whether events can record a call: a node begins at an event whose number has 32 bits, and the
record of a node that has just begun in front of another one stays. -/
def records (desk : Desk) : Call → Bool
  | .start => desk.draft.size < UInt32.size
  | .precede _ => desk.draft.size < UInt32.size
  | .abandon _ => !desk.draft.isReferred
  | _ => true

def recordsAll (desk : Desk) : List Call → Bool
  | [] => true
  | call :: calls => desk.records call && (desk.step call).all (·.recordsAll calls)

end Desk

structure Desk.Covers (text : String) (desk : Desk) : Prop where
  reads : Lexer.Reads (.ofText text) desk.draft.tokens desk.lexer
  saved : ∀ saved ∈ desk.saved, Lexer.Reads (.ofText text) saved.draft.tokens saved.lexer

namespace Desk

variable {text : String} {desk desk' : Desk} {call : Call} {calls : List Call}

theorem run_cons (desk : Desk) (call : Call) (calls : List Call) :
    desk.run (call :: calls) = (desk.step call).bind (·.run calls) :=
  List.foldlM_cons

theorem covers_ofText (text : String) : (ofText text).Covers text := by
  refine ⟨?_, by simp [ofText]⟩
  rw [ofText, Draft.tokens_empty]
  exact .refl _

namespace Covers

/-- What changes nodes only leaves the tokens where they are. -/
theorem change {mark : Nat} {draft : Option Draft} (h : desk.Covers text)
    (hdesk : desk.change mark draft = some desk')
    (hdraft : ∀ draft', draft = some draft' → draft'.tokens = desk.draft.tokens) :
    desk'.Covers text := by
  obtain ⟨draft', hsome, rfl⟩ := Option.map_eq_some_iff.mp hdesk
  refine ⟨?_, ?_⟩
  · show Lexer.Reads _ draft'.tokens _
    rw [hdraft draft' hsome]
    exact h.reads
  · intro saved hmem
    obtain ⟨saved', hmem', rfl⟩ := List.mem_map.mp hmem
    exact h.saved saved' hmem'

/-- No call puts down a token but the lookahead, and drafts that are taken up again held the tokens
up to their lexers. -/
theorem step (h : desk.Covers text) (hstep : desk.step call = some desk') :
    desk'.Covers text := by
  cases call with
  | start =>
    obtain rfl := Option.some.inj hstep
    refine ⟨?_, h.saved⟩
    rw [Draft.tokens_start]
    exact h.reads
  | push field =>
    obtain rfl := Option.some.inj hstep
    refine ⟨?_, h.saved⟩
    rw [Draft.tokens_push]
    exact .take h.reads
  | relex mode =>
    obtain rfl := Option.some.inj hstep
    exact ⟨.relex mode h.reads, h.saved⟩
  | fail message =>
    obtain rfl := Option.some.inj hstep
    exact h
  | complete mark kind => exact h.change hstep fun _ => Draft.tokens_complete
  | abandon mark => exact h.change hstep fun _ => Draft.tokens_abandon
  | setField mark field => exact h.change hstep fun _ => Draft.tokens_fill
  | precede mark => exact h.change hstep fun _ => Draft.tokens_precede
  | checkpoint =>
    obtain rfl := Option.some.inj hstep
    refine ⟨h.reads, ?_⟩
    intro saved hmem
    rcases List.mem_cons.mp hmem with rfl | hmem
    · exact h.reads
    · exact h.saved saved hmem
  | rewind depth =>
    rw [Desk.step] at hstep
    split at hstep
    · cases hstep
    · next saved older hdrop =>
      -- what is taken up again was covered when it was saved
      have hsaved : ∀ draft ∈ saved :: older,
          Lexer.Reads (.ofText text) draft.draft.tokens draft.lexer :=
        fun draft hmem => h.saved draft (List.mem_of_mem_drop (hdrop ▸ hmem))
      split at hstep
      · obtain rfl := Option.some.inj hstep
        exact ⟨hsaved saved (by simp), hsaved⟩
      · cases hstep

theorem run (h : desk.Covers text) (hrun : desk.run calls = some desk') : desk'.Covers text := by
  induction calls generalizing desk with
  | nil =>
    obtain rfl := Option.some.inj hrun
    exact h
  | cons call calls ih =>
    rw [run_cons] at hrun
    obtain ⟨middle, hfirst, hrest⟩ := Option.bind_eq_some_iff.mp hrun
    exact ih (h.step hfirst) hrest

end Covers

end Desk

/-- What is needed to go back: the events at each checkpoint recorded the draft that was saved, and
as long as that draft is intact they are a front of the events since. -/
inductive Kept : Events → List Checkpoint → List Saved → Prop where
  | nil (events : Events) : Kept events [] []
  | cons {events front : Events} {checkpoint : Checkpoint} {saved : Saved}
      {older : List Checkpoint} {drafts : List Saved} (lexer : checkpoint.lexer = saved.lexer)
      (size : checkpoint.events = front.size) (records : saved.draft.Matches front)
      (isFront : saved.intact = true → front.toList <+: events.toList)
      (before : Kept front older drafts) (since : Kept events older drafts) :
      Kept events (checkpoint :: older) (saved :: drafts)

namespace Kept

variable {events events' : Events} {checkpoints : List Checkpoint} {drafts : List Saved}

/-- Events go on, as long as fronts of them stay. -/
theorem grow (h : Kept events checkpoints drafts) (hfront : ∀ front : Events,
      front.toList <+: events.toList → front.toList <+: events'.toList) :
    Kept events' checkpoints drafts := by
  induction h with
  | nil => exact .nil _
  | cons lexer size records isFront before _ _ ih =>
    exact .cons lexer size records (fun hintact => hfront _ (isFront hintact)) before (ih hfront)

theorem weaken (h : Kept events checkpoints drafts) (mark : Nat) :
    Kept events checkpoints (drafts.map (Desk.touch mark)) := by
  induction h with
  | nil => exact .nil _
  | cons lexer size records isFront _ _ ihBefore ihSince =>
    refine .cons lexer size records ?_ ihBefore ihSince
    intro hintact
    exact isFront (Bool.and_eq_true_iff.mp hintact).1

/-- The node of a mark is changed, as long as fronts before it stay. -/
theorem touch {mark : Nat} (h : Kept events checkpoints drafts) (hfront : ∀ front : Events,
      front.size ≤ mark → front.toList <+: events.toList → front.toList <+: events'.toList) :
    Kept events' checkpoints (drafts.map (Desk.touch mark)) := by
  induction h with
  | nil => exact .nil _
  | cons lexer size records isFront before _ _ ih =>
    refine .cons lexer size records ?_ (before.weaken mark) (ih hfront)
    intro hintact
    obtain ⟨hold, hle⟩ := Bool.and_eq_true_iff.mp hintact
    rw [decide_eq_true_iff, records.1] at hle
    exact hfront _ hle (isFront hold)

theorem drop (h : Kept events checkpoints drafts) (depth : Nat) :
    Kept events (checkpoints.drop depth) (drafts.drop depth) := by
  induction depth generalizing checkpoints drafts with
  | zero => exact h
  | succ depth ih =>
    cases h with
    | nil => exact .nil _
    | cons _ _ _ _ _ since => exact ih since

end Kept

structure Session.Follows (session : Session) (desk : Desk) : Prop where
  isUsed : session.state.misused = false
  lexer : session.state.lexer = desk.lexer
  records : desk.draft.Matches session.state.events
  kept : Kept session.state.events session.checkpoints desk.saved

namespace Session.Follows

variable {session : Session} {desk desk' : Desk} {call : Call} {calls : List Call}

theorem hasMark (h : session.Follows desk) (hsize : desk.draft.size < UInt32.size) :
    session.state.hasMark = true := by
  rw [h.records.1] at hsize
  rw [ParseState.hasMark, decide_eq_true_iff]
  exact hsize

/-- A node is changed, on the desk and among the events. -/
theorem touch {mark : Nat} {after : Events} {draft : Option Draft} {condition : Bool}
    (h : session.Follows desk) (hdesk : desk.change mark draft = some desk')
    (hdraft : ∀ draft', draft = some draft' → condition = true ∧ draft'.Matches after)
    (hfront : ∀ front : Events, front.size ≤ mark → front.toList <+: session.state.events.toList →
      front.toList <+: after.toList) :
    (session.change { session.state.require condition with events := after }).Follows desk' := by
  obtain ⟨draft', hsome, rfl⟩ := Option.map_eq_some_iff.mp hdesk
  obtain ⟨hcondition, hrecords⟩ := hdraft draft' hsome
  refine ⟨?_, h.lexer, hrecords, h.kept.touch hfront⟩
  show (session.state.misused || !condition) = false
  rw [h.isUsed, hcondition]
  rfl

theorem fail (h : session.Follows desk) (message : String) :
    (session.change (session.state.fail message)).Follows desk := by
  unfold ParseState.fail
  split
  · exact ⟨h.isUsed, h.lexer, h.records, h.kept⟩
  · exact ⟨h.isUsed, h.lexer, h.records, h.kept⟩

/-- The events of an intact draft are a front, so cutting back to their number restores them. -/
theorem rewind {depth : Nat} (h : session.Follows desk)
    (hstep : desk.step (.rewind depth) = some desk') :
    ∃ session', session.perform (.rewind depth) = some session' ∧ session'.Follows desk' := by
  have hkept := h.kept.drop depth
  rw [Desk.step] at hstep
  rw [Session.perform]
  generalize desk.saved.drop depth = drafts at hkept hstep
  generalize session.checkpoints.drop depth = checkpoints at hkept
  cases hkept with
  | nil => cases hstep
  | @cons _ front checkpoint saved older drafts hlexer hsize hrecords hfront hbefore _ =>
    dsimp only at hstep ⊢
    split at hstep
    · next hintact =>
      obtain rfl := Option.some.inj hstep
      have hevents : session.state.events.shrink checkpoint.events = front := by
        rw [hsize, Events.shrink_eq (hfront hintact)]
      refine ⟨_, rfl, h.isUsed, hlexer, ?_, ?_⟩
      · show saved.draft.Matches (session.state.events.shrink checkpoint.events)
        rw [hevents]
        exact hrecords
      · -- the older drafts are kept as they were when this one was saved
        show Kept (session.state.events.shrink checkpoint.events) _ _
        rw [hevents]
        exact .cons hlexer hsize hrecords (fun _ => List.prefix_rfl) hbefore hbefore
    · cases hstep

/-- A call that is followed and recorded is performed. -/
theorem perform (h : session.Follows desk) (hstep : desk.step call = some desk')
    (hrecords : desk.records call = true) :
    ∃ session', session.perform call = some session' ∧ session'.Follows desk' := by
  cases call with
  | start =>
    obtain rfl := Option.some.inj hstep
    -- the number of the event that is written now has 32 bits
    have hmark := h.hasMark (of_decide_eq_true hrecords)
    refine ⟨session.change session.state.openNode, ?_, h.isUsed, h.lexer, h.records.start,
      h.kept.grow fun front hfront => Events.front_push hfront _⟩
    rw [Session.perform, ParseState.openNode?, if_pos hmark]
    rfl
  | push field =>
    obtain rfl := Option.some.inj hstep
    refine ⟨_, rfl, h.isUsed, congrArg Lexer.advance h.lexer, ?_,
      h.kept.grow fun front hfront => Events.front_push hfront _⟩
    show (desk.draft.push desk.lexer.current field).Matches
      (session.state.events.push (.token session.state.lexer.current field))
    rw [h.lexer]
    exact h.records.push _ _
  | relex mode =>
    obtain rfl := Option.some.inj hstep
    exact ⟨_, rfl, h.isUsed, congrArg (Lexer.relex · mode) h.lexer, h.records, h.kept⟩
  | fail message =>
    obtain rfl := Option.some.inj hstep
    exact ⟨_, rfl, h.fail message⟩
  | complete mark kind =>
    exact ⟨_, rfl, h.touch hstep (fun draft' hdraft => h.records.complete hdraft)
      fun front hm hfront => Events.front_complete hfront hm kind⟩
  | abandon mark =>
    -- a node that another one refers to keeps its record
    have hfree : desk.draft.isReferred = false := by simpa [Desk.records] using hrecords
    exact ⟨_, rfl, h.touch hstep (fun draft' hdraft => h.records.abandon hdraft hfree)
      fun front hm hfront => Events.front_abandon hfront hm⟩
  | setField mark field =>
    exact ⟨_, rfl, h.touch hstep (fun draft' hdraft => h.records.fill hdraft)
      fun front hm hfront => Events.front_setField hfront hm field⟩
  | precede mark =>
    have hmark := h.hasMark (of_decide_eq_true hrecords)
    refine ⟨session.change (session.state.precede mark), ?_,
      h.touch hstep (fun draft' hdraft => h.records.precede hdraft)
        fun front hm hfront => Events.front_precede hfront hm⟩
    rw [Session.perform, ParseState.precede?, if_pos hmark]
    rfl
  | checkpoint =>
    obtain rfl := Option.some.inj hstep
    exact ⟨_, rfl, h.isUsed, h.lexer, h.records,
      .cons h.lexer rfl h.records (fun _ => List.prefix_rfl) h.kept h.kept⟩
  | rewind depth => exact h.rewind hstep

/-- By induction on the calls: each of them is made as it is followed. -/
theorem run (h : session.Follows desk) (hrun : desk.run calls = some desk')
    (hrecords : desk.recordsAll calls = true) :
    ∃ session', session.run calls = some session' ∧ session'.Follows desk' := by
  induction calls generalizing session desk with
  | nil =>
    obtain rfl := Option.some.inj hrun
    exact ⟨session, rfl, h⟩
  | cons call calls ih =>
    rw [Desk.run_cons] at hrun
    obtain ⟨middle, hfirst, hrest⟩ := Option.bind_eq_some_iff.mp hrun
    rw [Desk.recordsAll, hfirst, Bool.and_eq_true] at hrecords
    obtain ⟨session', hperform, hfollows⟩ := h.perform hfirst hrecords.1
    obtain ⟨session'', hrun', hfollows'⟩ := ih hfollows hrest hrecords.2
    refine ⟨session'', ?_, hfollows'⟩
    rw [Session.run, List.foldlM_cons, hperform]
    exact hrun'

open Sketch in
/-- With all nodes ended, the parse of the session is the tree of what was put down on the desk. -/
theorem finish (h : session.Follows desk) (hclosed : desk.draft.opened = []) (text : String) :
    session.state.finish text =
      (Tree.build text (Shape.stepsAll (shapeAll desk.draft.elements))).map
        (fun tree => ⟨tree, session.state.reports⟩) := by
  simp only [ParseState.finish, h.isUsed, h.records.isLinked, h.records.steps_eq hclosed]
  cases Tree.build text (Shape.stepsAll (shapeAll desk.draft.elements)) <;> rfl

end Session.Follows

theorem Session.follows_ofText (text : String) (limit : Nat) :
    (ofText text limit).Follows (.ofText text) :=
  ⟨rfl, rfl, Draft.matches_empty, .nil _⟩

open Sketch

def chainedCalls : List Call :=
  [.start, .checkpoint, .start, .push none, .complete 1 .ident, .precede 1, .push none,
    .complete 4 .callExpr, .rewind 0, .start, .push none, .complete 1 .ident, .setField 1 .object,
    .precede 1, .push none, .push none, .complete 4 .memberExpr, .precede 4, .start, .abandon 9,
    .start, .push none, .abandon 9, .complete 8 .binaryExpr, .push none, .complete 0 .sourceFile]

def abandonedCalls : List Call :=
  [.start, .start, .push none, .complete 1 .ident, .precede 1, .abandon 4, .start, .push none,
    .complete 4 .callExpr, .push none, .complete 0 .sourceFile]

/-- Nodes begin one after the other up to the one that has no mark. -/
theorem Session.run_starts {session : Session} {count : Nat}
    (hle : session.state.events.size ≤ UInt32.size)
    (hlt : UInt32.size < session.state.events.size + count) :
    session.run (List.replicate count .start) = none := by
  induction count generalizing session with
  | zero => exact absurd hlt (Nat.not_lt.mpr hle)
  | succ count ih =>
    rw [List.replicate_succ, run, List.foldlM_cons, perform]
    rcases ParseState.yields_openNode? session.state with hopen | ⟨hnone, -⟩
    · have hmark : session.state.hasMark = true := by
        by_contra hmark
        rw [ParseState.openNode?, if_neg hmark] at hopen
        cases hopen
      have hsize : (session.change session.state.openNode).state.events.size =
          session.state.events.size + 1 := by
        simp [change, ParseState.openNode, Events.openNode]
      rw [ParseState.hasMark, decide_eq_true_iff] at hmark
      rw [hopen]
      refine ih ?_ ?_
      · rw [hsize]
        exact hmark
      · omega
    · rw [hnone]
      rfl

theorem Desk.run_starts (desk : Desk) (count : Nat) :
    ∃ desk', desk.run (List.replicate count .start) = some desk' := by
  induction count generalizing desk with
  | zero => exact ⟨desk, rfl⟩
  | succ count ih =>
    obtain ⟨desk', hrun⟩ := ih { desk with draft := desk.draft.start }
    exact ⟨desk', hrun⟩

end ScriptTree

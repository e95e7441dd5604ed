import ScriptTree.Proofs.Parser.Drawing
import ScriptTree.Proofs.Parser.Growth

/-!
Running a phrase records what drawing it gives: the events grow by the shapes that were drawn, the
reports and failures are added to those before, and nothing that was there before is touched. It
follows that going back to a remembered state restores that state.
-/

namespace ScriptTree

theorem modify_append_cons (front back : List Event) (event : Event) (f : Event → Event) :
    (front ++ event :: back).modify front.length f = front ++ f event :: back := by
  induction front with
  | nil => simp
  | cons head rest ih => simp [ih]

namespace Events

theorem modify_middle (events : Events) (front back : List Event) (event : Event)
    (f : Event → Event) {mark : Nat} (h : mark = events.size + front.length) :
    (events ++ (front ++ event :: back).toArray).modify mark f =
      events ++ (front ++ f event :: back).toArray := by
  apply Array.ext'
  have hm : mark = (events.toList ++ front).length := by simp [h]
  rw [Array.toList_modify, Array.toList_append, Array.toList_append, ← List.append_assoc, hm,
    modify_append_cons, List.append_assoc]

theorem getElem?_middle (events : Events) (front back : List Event) (event : Event) {mark : Nat}
    (h : mark = events.size + front.length) :
    (events ++ (front ++ event :: back).toArray)[mark]? = some event := by
  rw [Array.getElem?_append_right (by omega), List.getElem?_toArray, h, Nat.add_sub_cancel_left,
    List.getElem?_append_right (Nat.le_refl _), Nat.sub_self, List.getElem?_cons_zero]

theorem openNode_append (events : Events) (list : List Event) :
    events.openNode ++ list.toArray = events ++ (Event.blank :: list).toArray := by
  apply Array.ext'
  simp [openNode]

/-- Completing a node records it with its body. -/
theorem complete_openNode (events : Events) (body : Growth) (kind : Kind) :
    complete (events.openNode ++ (body.events none).toArray) events.size kind =
      events ++ ((Growth.node .nil kind none body).events none).toArray := by
  rw [openNode_append, complete]
  have hm : Array.modify (events ++ (Event.blank :: body.events none).toArray) events.size
      (Event.withKind kind) = events ++ (Event.withKind kind .blank :: body.events none).toArray :=
    modify_middle events [] (body.events none) .blank (Event.withKind kind) rfl
  rw [hm]
  apply Array.ext'
  simp [Growth.events, Event.blank, Event.withKind]

/-- Abandoning a node leaves a blank in front of its body, or nothing if the body is empty. -/
theorem abandon_openNode (events : Events) {body : Growth} (h : body.IsSound) :
    ∃ growth : Growth, growth.IsSound ∧ growth.shapes = body.shapes ∧
      abandon (events.openNode ++ (body.events none).toArray) events.size =
        events ++ (growth.events none).toArray := by
  by_cases hz : body.size = 0
  · have hnil : body = .nil := by
      cases body <;> simp [Growth.size] at hz ⊢
    subst hnil
    refine ⟨.nil, trivial, rfl, ?_⟩
    simp [abandon, openNode, Growth.events]
  · refine ⟨(Growth.blank .nil).append body, Growth.isSound_append trivial h, ?_, ?_⟩
    · rw [Growth.shapes_append h]
      rfl
    · have hsize : events.size + 1 ≠ (events.openNode ++ (body.events none).toArray).size := by
        simp only [openNode, Array.size_append, Array.size_push, List.size_toArray,
          Growth.length_events]
        omega
      rw [abandon, if_neg hsize, Growth.events_append h none (Or.inl rfl), openNode_append]
      rfl

/-- Putting the last node of a growth into a slot. -/
theorem setField_last (events : Events) {growth : Growth} (h : growth.isNode = true) {mark : Nat}
    (hm : mark + growth.lastSize = events.size + growth.size) (field : Field) :
    setField (events ++ (growth.events none).toArray) mark field =
      events ++ ((growth.fillLast field).events none).toArray := by
  obtain ⟨front, kind, old, back, hevents, hsize, hfill⟩ := Growth.events_of_isNode h
  rw [setField, hevents, hfill, modify_middle events front back _ _ (by omega)]
  rfl

/-- The last node of a growth starts at its mark. -/
theorem startsAt_last (events : Events) {growth : Growth} (h : growth.isNode = true) {mark : Nat}
    (hm : mark + growth.lastSize = events.size + growth.size) :
    startsAt (events ++ (growth.events none).toArray) mark = true := by
  obtain ⟨front, kind, old, back, hevents, hsize, _⟩ := Growth.events_of_isNode h
  rw [startsAt, hevents, getElem?_middle events front back _ (by omega)]

/-- Opening a node in front of the last node of a growth points that node to the new one. -/
theorem precede_last (events : Events) {growth : Growth} (h : growth.isNode = true) {mark : Nat}
    (hm : mark + growth.lastSize = events.size + growth.size) :
    precede (events ++ (growth.events none).toArray) mark =
      (events ++ (growth.events (some growth.lastSize)).toArray).openNode := by
  obtain ⟨front, own, old, back, hevents, hsize, _⟩ := Growth.events_of_isNode h
  have hlen : (events ++ (growth.events none).toArray).size = events.size + growth.size := by
    simp [Growth.length_events]
  rw [precede, hlen, show events.size + growth.size - mark = growth.lastSize by omega, hevents,
    hevents, modify_middle events front back _ _ (by omega)]
  rfl

/-- Completing a node that was opened in front of the last node of a growth. -/
theorem complete_precede (events : Events) (growth body : Growth) (kind : Kind) :
    complete ((events ++ (growth.events (some growth.lastSize)).toArray).openNode ++
        (body.events none).toArray) (events.size + growth.size) kind =
      events ++ ((Growth.wrap growth kind none body).events none).toArray := by
  have hsize : events.size + growth.size =
      (events ++ (growth.events (some growth.lastSize)).toArray).size := by
    simp [Growth.length_events]
  rw [hsize, complete_openNode]
  apply Array.ext'
  simp [Growth.events]

/-- A node that was just opened is a blank at its mark. -/
theorem isBlankAt_openNode (events : Events) (list : List Event) :
    isBlankAt (events.openNode ++ list.toArray) events.size = true := by
  have hget : (events ++ (Event.blank :: list).toArray)[events.size]? = some .blank :=
    getElem?_middle events [] list .blank rfl
  rw [openNode_append, isBlankAt, hget]
  rfl

end Events

def ParseState.extend (state : ParseState) (reading : Reading) (growth : Growth) : ParseState :=
  { state with
    lexer := reading.lexer
    events := state.events ++ (growth.events none).toArray
    diagnostics := state.diagnostics ++ reading.reports.toArray
    failures := state.failures + reading.failures }

def Verdict.Marks (base : Nat) (growth : Growth) : Verdict → Outcome → Prop
  | .failed, outcome => outcome = .failed
  | .done, outcome => outcome = .done
  | .chose kind, outcome => outcome = .chose kind
  | .node, outcome => growth.isNode = true ∧
      ∃ mark kind, outcome = .node mark kind ∧ mark + growth.lastSize = base + growth.size

def Reading.Recorded (state : ParseState) (reading : Reading) (result : Outcome × ParseState) :
    Prop :=
  ∃ growth : Growth, growth.IsSound ∧ growth.shapes = reading.shapes ∧
    reading.verdict.Marks state.events.size growth result.1 ∧
    result.2 = state.extend reading growth

namespace Verdict

@[simp] theorem marks_failed {base : Nat} {growth : Growth} {outcome : Outcome} :
    Marks base growth .failed outcome ↔ outcome = .failed :=
  Iff.rfl

@[simp] theorem marks_done {base : Nat} {growth : Growth} {outcome : Outcome} :
    Marks base growth .done outcome ↔ outcome = .done :=
  Iff.rfl

@[simp] theorem marks_chose {base : Nat} {growth : Growth} {kind : Kind} {outcome : Outcome} :
    Marks base growth (.chose kind) outcome ↔ outcome = .chose kind :=
  Iff.rfl

end Verdict

namespace ParseState

@[simp] theorem require_true (state : ParseState) : state.require true = state := by
  simp [require]

@[simp] theorem extend_lexer (state : ParseState) (reading : Reading) (growth : Growth) :
    (state.extend reading growth).lexer = reading.lexer :=
  rfl

@[simp] theorem bare_extend (state : ParseState) (reading : Reading) (growth : Growth) :
    (state.extend reading growth).bare = state.bare.moveTo reading.lexer :=
  rfl

@[simp] theorem size_extend (state : ParseState) (reading : Reading) (growth : Growth) :
    (state.extend reading growth).events.size = state.events.size + growth.size := by
  simp [extend, Growth.length_events]

@[simp] theorem mark_extend (state : ParseState) (reading : Reading) (growth : Growth) :
    (state.extend reading growth).mark = state.events.size + growth.size :=
  size_extend state reading growth

theorem extend_nil (state : ParseState) (reading : Reading) (hl : reading.lexer = state.lexer)
    (hr : reading.reports = []) (hf : reading.failures = 0) :
    state.extend reading .nil = state := by
  simp [extend, hl, hr, hf, Growth.events]

theorem extend_extend (state : ParseState) (first second : Reading) (growth : Growth)
    {growth' : Growth} (h : growth'.IsSound) :
    (state.extend first growth).extend second growth' =
      state.extend (first.andThen second) (growth.append growth') := by
  simp [extend, Reading.andThen, Growth.events_append h none (Or.inl rfl), Nat.add_assoc]

/-- Going back undoes what was recorded since. -/
@[simp] theorem rewind_extend (state : ParseState) (reading : Reading) (growth : Growth) :
    (state.extend reading growth).rewind state.checkpoint = state := by
  simp [extend, rewind, checkpoint, mark]

@[simp] theorem firstReportSince_extend (state : ParseState) (reading : Reading)
    (growth : Growth) :
    (state.extend reading growth).firstReportSince state.checkpoint = reading.reports.head? := by
  simp [extend, firstReportSince, checkpoint, Array.getElem?_append_right, List.head?_eq_getElem?]

/-- Whether an attempt was clean can be told from its reading. -/
theorem isClean_extend (state : ParseState) {reading : Reading} {growth : Growth}
    {outcome : Outcome} {base : Nat} (h : reading.verdict.Marks base growth outcome) :
    (state.extend reading growth).isClean state.checkpoint outcome = reading.isClean := by
  have hfits : outcome.fits = (reading.verdict != .failed) := by
    cases hv : reading.verdict <;> rw [hv] at h
    · rw [show outcome = .failed from h]; rfl
    · rw [show outcome = .done from h]; rfl
    · rw [show outcome = .chose _ from h]; rfl
    · obtain ⟨_, mark, kind, rfl, _⟩ := h; rfl
  have hfailures : (state.failures + reading.failures == state.failures) =
      (reading.failures == 0) := by
    rw [Bool.eq_iff_iff]
    simp
  simp [isClean, Reading.isClean, hfits, extend, checkpoint, hfailures]

end ParseState

namespace Reading

open ParseState

theorem recorded_stay (state : ParseState) {verdict : Verdict} {outcome : Outcome}
    (h : verdict.Marks state.events.size .nil outcome) :
    Recorded state (stay state.bare verdict) (outcome, state) :=
  ⟨.nil, trivial, rfl, h, (extend_nil state _ rfl rfl rfl).symm⟩

theorem recorded_taken (state : ParseState) (field : Option Field) :
    Recorded state (taken state.bare field) (.done, state.take field) := by
  unfold taken take
  by_cases h : state.kind = .eof
  · rw [if_pos (show state.bare.kind = .eof from h), if_pos h]
    exact recorded_stay state rfl
  · rw [if_neg (show state.bare.kind ≠ .eof from h), if_neg h]
    refine ⟨.token .nil state.current field, trivial, rfl, rfl, ?_⟩
    simp [extend, push, Growth.events, stay, current, bare]

theorem recorded_failing (state : ParseState) (report : Diagnostic) :
    Recorded state (failing state.bare report)
      (.failed, { state with
        diagnostics := state.diagnostics.push report
        failures := state.failures + 1 }) := by
  refine ⟨.nil, trivial, rfl, rfl, ?_⟩
  simp [extend, failing, stay, Growth.events, bare]

theorem fail_eq (state : ParseState) (message : String) :
    state.fail message = { state with
      diagnostics := state.diagnostics.push (state.bare.complaint message)
      failures := state.failures + 1 } := by
  unfold fail complaint
  by_cases h : state.kind = .unknown
  · rw [if_pos h, if_pos (show state.bare.kind = .unknown from h)]
    rfl
  · rw [if_neg h, if_neg (show state.bare.kind ≠ .unknown from h)]
    rfl

/-- Readings one after the other. -/
theorem Recorded.andThen {state : ParseState} {first second : Reading}
    {outcome : Outcome} {middle : ParseState} {result : Outcome × ParseState}
    (h : Recorded state first (outcome, middle)) (h' : Recorded middle second result) :
    Recorded state (first.andThen second) result := by
  obtain ⟨growth, hsound, hshapes, _, hmiddle⟩ := h
  obtain ⟨growth', hsound', hshapes', hmarks', hresult⟩ := h'
  dsimp only at hmiddle
  subst hmiddle
  refine ⟨growth.append growth', Growth.isSound_append hsound hsound', ?_, ?_, ?_⟩
  · rw [Growth.shapes_append hsound', hshapes, hshapes']
    rfl
  · rw [size_extend] at hmarks'
    show Verdict.Marks state.events.size (growth.append growth') second.verdict result.1
    cases hv : second.verdict <;> rw [hv] at hmarks'
    · exact hmarks'
    · exact hmarks'
    · exact hmarks'
    · obtain ⟨hnode, mark, kind, hres, hmark⟩ := hmarks'
      refine ⟨Growth.isNode_append_of_isNode growth hnode, mark, kind, hres, ?_⟩
      rw [Growth.lastSize_append growth hnode, Growth.size_append]
      omega
  · rw [hresult, extend_extend _ _ _ _ hsound']

/-- The same reading with another verdict that needs no node. -/
theorem Recorded.settle {state after : ParseState} {reading : Reading} {outcome : Outcome}
    (h : Recorded state reading (outcome, after)) {verdict : Verdict} {outcome' : Outcome}
    (h' : ∀ growth, verdict.Marks state.events.size growth outcome') :
    Recorded state { reading with verdict } (outcome', after) := by
  obtain ⟨growth, hsound, hshapes, _, hafter⟩ := h
  exact ⟨growth, hsound, hshapes, h' growth, hafter⟩

theorem close_of_chose {reading : Reading} {kind : Kind} (h : reading.verdict = .chose kind) :
    reading.close = { reading with
      verdict := .node
      shapes := [.node kind none reading.shapes]
      misused := reading.misused || kind == .tombstone } := by
  rw [Reading.close, h]

theorem close_of_not_chose {reading : Reading} (h : ∀ kind, reading.verdict ≠ .chose kind) :
    reading.close = { reading with verdict := .failed } := by
  unfold Reading.close
  split
  · next kind hv => exact absurd hv (h kind)
  · rfl

/-- A node that was opened in front of a reading is ended behind it. -/
theorem Recorded.close {state after : ParseState} {reading : Reading} {outcome : Outcome}
    (h : Recorded state.openNode reading (outcome, after)) (hm : reading.close.misused = false) :
    Recorded state reading.close (after.endNode state.mark outcome) := by
  obtain ⟨growth, hsound, hshapes, hmarks, hafter⟩ := h
  dsimp only at hafter
  subst hafter
  have hblank : (state.openNode.extend reading growth).events.isBlankAt state.mark = true :=
    Events.isBlankAt_openNode state.events _
  by_cases hv : ∃ kind, reading.verdict = .chose kind
  · obtain ⟨kind, hv⟩ := hv
    rw [hv] at hmarks
    obtain rfl : outcome = .chose kind := hmarks
    rw [close_of_chose hv] at hm ⊢
    have hkind : kind ≠ .tombstone := by
      simp at hm
      exact hm.2
    refine ⟨.node .nil kind none growth, ⟨trivial, hkind, hsound⟩, ?_, ?_, ?_⟩
    · simp [Growth.shapes, hshapes]
    · refine ⟨rfl, state.mark, kind, rfl, ?_⟩
      simp [Growth.lastSize, Growth.size, mark]
    · simp only [endNode, Events.startsAt_of_isBlankAt hblank, require_true]
      simp only [extend, openNode, mark, Events.complete_openNode]
  · have hv' : ∀ kind, reading.verdict ≠ .chose kind := fun kind h => hv ⟨kind, h⟩
    have hend : (state.openNode.extend reading growth).endNode state.mark outcome =
        (.failed, { state.openNode.extend reading growth with
          events := (state.openNode.extend reading growth).events.abandon state.mark }) := by
      cases outcome with
      | chose kind => cases hr : reading.verdict <;> simp_all [Verdict.Marks]
      | _ => simp [endNode, hblank]
    obtain ⟨growth', hsound', hshapes', hevents⟩ := Events.abandon_openNode state.events hsound
    rw [close_of_not_chose hv', hend]
    refine ⟨growth', hsound', hshapes'.trans hshapes, rfl, ?_⟩
    simp only [extend, openNode, mark] at hevents ⊢
    rw [hevents]

theorem fill_of_node {reading : Reading} (h : reading.verdict = .node) (field : Field) :
    reading.fill field = { reading with shapes := Shape.fillLast field reading.shapes } := by
  rw [Reading.fill, h]

theorem fill_of_ne_node {reading : Reading} (h : reading.verdict ≠ .node) (field : Field) :
    reading.fill field = reading := by
  unfold Reading.fill
  split
  · next hv => exact absurd hv h
  · rfl

@[simp] theorem fill_verdict (reading : Reading) (field : Field) :
    (reading.fill field).verdict = reading.verdict := by
  unfold Reading.fill
  split <;> simp_all

/-- The node of a reading is put into a slot. -/
theorem Recorded.fill {state after : ParseState} {reading : Reading} {outcome : Outcome}
    (h : Recorded state reading (outcome, after)) (field : Field) :
    Recorded state (reading.fill field) (outcome, after.setField outcome field) := by
  obtain ⟨growth, hsound, hshapes, hmarks, hafter⟩ := h
  dsimp only at hafter
  subst hafter
  by_cases hv : reading.verdict = .node
  · rw [hv] at hmarks
    obtain ⟨hnode, mark, kind, rfl, hmark⟩ := hmarks
    rw [fill_of_node hv]
    refine ⟨growth.fillLast field, Growth.isSound_fillLast field hsound, ?_, ?_, ?_⟩
    · rw [Growth.shapes_fillLast field hnode, hshapes]
    · rw [hv]
      exact ⟨by simpa using hnode, mark, kind, rfl, by simpa using hmark⟩
    · have hstart : (state.extend reading growth).events.startsAt mark = true :=
        Events.startsAt_last state.events hnode hmark
      simp only [setField, hstart, require_true]
      simp only [extend, Events.setField_last state.events hnode hmark]
  · rw [fill_of_ne_node hv]
    have hset : (state.extend reading growth).setField outcome field =
        state.extend reading growth := by
      cases outcome with
      | node mark kind => cases hr : reading.verdict <;> simp_all [Verdict.Marks]
      | _ => rfl
    exact ⟨growth, hsound, hshapes, hmarks, hset⟩

theorem wrap_of_chose {reading body : Reading} {kind : Kind} (h : body.verdict = .chose kind) :
    reading.wrap body = { reading.andThen body with
      verdict := .node
      shapes := reading.shapes.dropLast ++
        [.node kind none (reading.shapes.getLast?.toList ++ body.shapes)]
      misused := (reading.andThen body).misused || kind == .tombstone } := by
  rw [Reading.wrap, h]

/-- A reading that was wrapped according to the rules of use has a kind for the node around it. -/
theorem chose_of_wrap {reading body : Reading} (h : (reading.wrap body).misused = false) :
    ∃ kind, body.verdict = .chose kind ∧ kind ≠ .tombstone ∧ reading.misused = false ∧
      body.misused = false := by
  unfold Reading.wrap at h
  split at h
  · next kind hv =>
    simp [Reading.andThen] at h
    exact ⟨kind, hv, h.2, h.1⟩
  · cases h

/-- A node is opened in front of the node of a reading, and ended behind a body. -/
theorem Recorded.wrap {state after last : ParseState} {reading body : Reading} {mark : Nat}
    {kind : Kind} {outcome : Outcome} (h : Recorded state reading (.node mark kind, after))
    (hv : reading.verdict = .node)
    (hb : Recorded (after.precede mark) body (outcome, last))
    (hm : (reading.wrap body).misused = false) :
    Recorded state (reading.wrap body) (last.endNode after.mark outcome) := by
  obtain ⟨growth, hsound, hshapes, hmarks, hafter⟩ := h
  obtain ⟨growth', hsound', hshapes', hmarks', hlast⟩ := hb
  obtain ⟨kind', hchose, hkind, _, _⟩ := chose_of_wrap hm
  dsimp only at hafter hlast
  subst hafter hlast
  rw [hchose] at hmarks'
  obtain rfl : outcome = .chose kind' := hmarks'
  rw [hv] at hmarks
  obtain ⟨hnode, _, _, he, hmark⟩ := hmarks
  obtain ⟨rfl, rfl⟩ := Outcome.node.inj he
  have hstart : (state.extend reading growth).events.startsAt mark = true :=
    Events.startsAt_last state.events hnode hmark
  have hprecede : (state.extend reading growth).precede mark =
      { state.extend reading growth with
        events := (state.events ++ (growth.events (some growth.lastSize)).toArray).openNode } := by
    simp only [precede, hstart, require_true]
    simp only [extend, Events.precede_last state.events hnode hmark]
  have hblank : (((state.extend reading growth).precede mark).extend body growth').events.isBlankAt
      (state.extend reading growth).mark = true := by
    rw [hprecede, mark_extend]
    have := Events.isBlankAt_openNode
      (state.events ++ (growth.events (some growth.lastSize)).toArray) (growth'.events none)
    simpa [Growth.length_events, extend] using this
  rw [wrap_of_chose hchose]
  refine ⟨.wrap growth kind' none growth', ⟨hsound, hnode, hkind, hsound'⟩, ?_, ?_, ?_⟩
  · simp [Growth.shapes, hshapes, hshapes']
  · refine ⟨rfl, _, kind', rfl, ?_⟩
    simp only [Growth.lastSize, Growth.size, mark_extend]
    omega
  · simp only [endNode, Events.startsAt_of_isBlankAt hblank, require_true]
    rw [hprecede, mark_extend]
    simp [extend, Reading.andThen, Events.complete_precede,
      Nat.add_assoc]

end Reading

end ScriptTree

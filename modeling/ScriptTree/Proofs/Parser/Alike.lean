import Mathlib.Data.List.Forall2
import Mathlib.Data.Option.Basic
import ScriptTree.Proofs.Parser.Shift
import ScriptTree.Proofs.Reported

/-!
Texts that look alike. Two texts can differ in ways that phrases do not see: in the letters of their
words, or in the layout between their tokens. Where the lexers of two texts show tokens that are
alike, step by step, a phrase reads them alike: it comes out the same, with the same nodes around
tokens that are alike, and with the same reports at places that are alike.

State lines are the exception. They are read in modes of their own, for which letters and layout
count, so what is said here is about phrases outside blocks of states.
-/

namespace ScriptTree

/-- A way in which the lexers of two texts look alike. Lexers that do stay alike when their
lookaheads are taken, or read again with `>` standing alone, and the tokens that they show cannot be
told apart by a phrase. `verbatim` says that their texts are the same too, and `place` relates
places that stand for each other, which lie in the same order in both texts. -/
structure Likeness (text text' : String) where
  lexer : Lexer → Lexer → Prop
  token : Token → Token → Prop
  place : Span → Span → Prop
  verbatim : Prop
  reached : ∀ {a b}, lexer a b → a.Reached text ∧ b.Reached text'
  stateless : ∀ {a b}, lexer a b → a.current.kind ≠ .statesKw
  advance : ∀ {a b}, lexer a b → lexer a.advance b.advance
  angle : ∀ {a b}, lexer a b → lexer (a.relex .angle) (b.relex .angle)
  current : ∀ {a b}, lexer a b → token a.current b.current
  kind : ∀ {a b}, token a b → b.kind = a.kind
  glued : ∀ {a b}, token a b → b.trailing.isEmpty = a.trailing.isEmpty
  word : ∀ {a b}, token a b → Text.lower b.text = Text.lower a.text
  spelling : ∀ {a b}, token a b → verbatim → b.text = a.text
  span : ∀ {a b}, token a b → place a.span b.span
  error : ∀ {a b}, token a b →
    Option.Rel (fun e f => f.fault = e.fault ∧ place e.span f.span) a.error b.error
  cleared : ∀ {a b}, token a b → token a.cleared b.cleared
  ordered : ∀ {a b c d}, place a b → place c d → (b.start ≤ d.start ↔ a.start ≤ c.start)

/-- Lists that are related one by one are so in front of their last entries and at them. -/
theorem forall₂_dropLast {α β : Type} {R : α → β → Prop} {xs : List α} {ys : List β}
    (h : List.Forall₂ R xs ys) : List.Forall₂ R xs.dropLast ys.dropLast ∧
      List.Forall₂ R xs.getLast?.toList ys.getLast?.toList := by
  induction h with
  | nil => exact ⟨.nil, .nil⟩
  | cons hhead htail ih =>
    cases htail with
    | nil => exact ⟨.nil, .cons hhead .nil⟩
    | cons hnext hrest =>
      refine ⟨.cons hhead ih.1, ?_⟩
      rw [List.getLast?_cons_cons, List.getLast?_cons_cons]
      exact ih.2

theorem forall₂_head? {α β : Type} {R : α → β → Prop} {xs : List α} {ys : List β}
    (h : List.Forall₂ R xs ys) : List.Forall₂ R xs.head?.toList ys.head?.toList := by
  cases h with
  | nil => exact .nil
  | cons hhead _ => exact .cons hhead .nil

namespace Shape

mutual

def Alike (token : Token → Token → Prop) : Shape → Shape → Prop
  | .leaf held field, other => ∃ held', other = .leaf held' field ∧ token held held'
  | .node kind field children, other =>
    ∃ children', other = .node kind field children' ∧ AlikeAll token children children'

def AlikeAll (token : Token → Token → Prop) : List Shape → List Shape → Prop
  | [], others => others = []
  | shape :: rest, others =>
    ∃ other more, others = other :: more ∧ shape.Alike token other ∧ AlikeAll token rest more

end

variable {token : Token → Token → Prop}

theorem alikeAll_iff {shapes others : List Shape} :
    AlikeAll token shapes others ↔ List.Forall₂ (Alike token) shapes others := by
  induction shapes generalizing others with
  | nil => rw [AlikeAll, List.forall₂_nil_left_iff]
  | cons shape rest ih =>
    rw [AlikeAll, List.forall₂_cons_left_iff]
    constructor
    · rintro ⟨other, more, rfl, hother, hmore⟩
      exact ⟨other, more, hother, ih.mp hmore, rfl⟩
    · rintro ⟨other, more, hother, hmore, rfl⟩
      exact ⟨other, more, rfl, hother, ih.mpr hmore⟩

theorem alike_node {kind : Kind} {field : Option Field} {children children' : List Shape}
    (h : List.Forall₂ (Alike token) children children') :
    Alike token (.node kind field children) (.node kind field children') := by
  rw [Alike]
  exact ⟨children', rfl, alikeAll_iff.mpr h⟩

theorem alike_leaf {held held' : Token} (h : token held held') (field : Option Field) :
    Alike token (.leaf held field) (.leaf held' field) := by
  rw [Alike]
  exact ⟨held', rfl, h⟩

theorem Alike.withField {shape other : Shape} (h : Alike token shape other) (field : Field) :
    Alike token (shape.withField field) (other.withField field) := by
  cases shape with
  | leaf held slot =>
    rw [Alike] at h
    obtain ⟨held', rfl, hheld⟩ := h
    exact alike_leaf hheld slot
  | node kind slot children =>
    rw [Alike] at h
    obtain ⟨children', rfl, hchildren⟩ := h
    exact alike_node (alikeAll_iff.mp hchildren)

theorem forall₂_fillLast {shapes others : List Shape}
    (h : List.Forall₂ (Alike token) shapes others) (field : Field) :
    List.Forall₂ (Alike token) (fillLast field shapes) (fillLast field others) := by
  induction h with
  | nil => exact .nil
  | cons hhead htail ih =>
    cases htail with
    | nil => exact .cons (hhead.withField field) .nil
    | cons hnext hrest => exact .cons hhead ih

mutual

/-- The tokens of shapes that are alike are alike one by one. -/
theorem Alike.tokens : ∀ {shape other : Shape}, Alike token shape other →
    List.Forall₂ token shape.tokens other.tokens
  | .leaf held field, other, h => by
    rw [Alike] at h
    obtain ⟨held', rfl, hheld⟩ := h
    rw [Shape.tokens, Shape.tokens]
    exact .cons hheld .nil
  | .node kind field children, other, h => by
    rw [Alike] at h
    obtain ⟨children', rfl, hchildren⟩ := h
    rw [Shape.tokens, Shape.tokens]
    exact AlikeAll.tokensAll hchildren

theorem AlikeAll.tokensAll : ∀ {shapes others : List Shape}, AlikeAll token shapes others →
    List.Forall₂ token (tokensAll shapes) (tokensAll others)
  | [], others, h => by
    rw [AlikeAll] at h
    rw [h, tokensAll_nil]
    exact .nil
  | shape :: rest, others, h => by
    rw [AlikeAll] at h
    obtain ⟨other, more, rfl, hother, hmore⟩ := h
    rw [Shape.tokensAll, Shape.tokensAll]
    exact List.rel_append (Alike.tokens hother) (AlikeAll.tokensAll hmore)

end

def Overlooks {α : Type} (token : Token → Token → Prop) (view : BuildStep → α) : Prop :=
  ∀ a b : Token, token a b → ∀ field,
    view (.token b.leading b.kind b.span.size b.trailing field) =
      view (.token a.leading a.kind a.span.size a.trailing field)

mutual

/-- Such a view does not tell shapes apart that are alike. -/
theorem Alike.map_steps {α : Type} {view : BuildStep → α} (hview : Overlooks token view) :
    ∀ {shape other : Shape}, Alike token shape other →
      other.steps.map view = shape.steps.map view
  | .leaf held field, other, h => by
    rw [Alike] at h
    obtain ⟨held', rfl, hheld⟩ := h
    simp only [steps, List.map_singleton, hview held held' hheld]
  | .node kind field children, other, h => by
    rw [Alike] at h
    obtain ⟨children', rfl, hchildren⟩ := h
    simp only [steps, List.map_cons, List.map_append, AlikeAll.map_stepsAll hview hchildren]

theorem AlikeAll.map_stepsAll {α : Type} {view : BuildStep → α} (hview : Overlooks token view) :
    ∀ {shapes others : List Shape}, AlikeAll token shapes others →
      (stepsAll others).map view = (stepsAll shapes).map view
  | [], others, h => by
    rw [AlikeAll] at h
    rw [h]
  | shape :: rest, others, h => by
    rw [AlikeAll] at h
    obtain ⟨other, more, rfl, hother, hmore⟩ := h
    rw [stepsAll, stepsAll, List.map_append, List.map_append, Alike.map_steps hview hother,
      AlikeAll.map_stepsAll hview hmore]

end

end Shape

variable {text text' : String} {likeness : Likeness text text'}

structure Diagnostic.Alike (likeness : Likeness text text') (a b : Diagnostic) : Prop where
  kind : b.kind = a.kind
  place : likeness.place a.span b.span
  message : likeness.verbatim → b.message = a.message

structure ParseState.Alike (likeness : Likeness text text') (state state' : ParseState) :
    Prop where
  lexer : likeness.lexer state.lexer state'.lexer
  depth : state'.depth = state.depth
  limit : state'.limit = state.limit
  size : state.size = text.utf8ByteSize
  size' : state'.size = text'.utf8ByteSize

structure Reading.Alike (likeness : Likeness text text') (reading reading' : Reading) :
    Prop where
  verdict : reading'.verdict = reading.verdict
  shapes : List.Forall₂ (Shape.Alike likeness.token) reading.shapes reading'.shapes
  reports : List.Forall₂ (Diagnostic.Alike likeness) reading.reports reading'.reports
  failures : reading'.failures = reading.failures
  lexer : likeness.lexer reading.lexer reading'.lexer

namespace Likeness

theorem ahead (likeness : Likeness text text') {a b : Lexer} (h : likeness.lexer a b)
    (count : Nat) : likeness.token (a.ahead count) (b.ahead count) := by
  induction count generalizing a b with
  | zero => exact likeness.current h
  | succ count ih => exact ih (likeness.advance h)

end Likeness

namespace ParseState

variable {state state' : ParseState}

theorem Alike.current (h : Alike likeness state state') :
    likeness.token state.current state'.current :=
  likeness.current h.lexer

theorem Alike.kind (h : Alike likeness state state') : state'.kind = state.kind :=
  likeness.kind h.current

theorem Alike.moveTo (h : Alike likeness state state') {lexer lexer' : Lexer}
    (hl : likeness.lexer lexer lexer') :
    Alike likeness (state.moveTo lexer) (state'.moveTo lexer') :=
  ⟨hl, h.depth, h.limit, h.size, h.size'⟩

theorem Alike.missing (h : Alike likeness state state') (hv : likeness.verbatim) (what : String) :
    state'.missing what = state.missing what := by
  simp only [ParseState.missing, found, h.kind, likeness.spelling h.current hv]

theorem Alike.complaint (h : Alike likeness state state') {message message' : String}
    (hm : likeness.verbatim → message' = message) :
    Diagnostic.Alike likeness (state.complaint message) (state'.complaint message') := by
  unfold ParseState.complaint
  rw [h.kind]
  split
  · refine ⟨rfl, likeness.span h.current, fun hv => ?_⟩
    simp only [likeness.spelling h.current hv]
  · exact ⟨rfl, likeness.span h.current, hm⟩

theorem Alike.depthComplaint (h : Alike likeness state state') :
    Diagnostic.Alike likeness state.depthComplaint state'.depthComplaint := by
  refine ⟨rfl, likeness.span h.current, fun _ => ?_⟩
  simp only [ParseState.depthComplaint, h.limit]

/-- Taking a token leaves fewer bytes to come. -/
theorem left_discard_lt {text : String} {state : ParseState} (hreached : state.lexer.Reached text)
    (hsize : state.size = text.utf8ByteSize) (heof : state.kind ≠ .eof) {rounds : Nat}
    (hr : state.size - state.lexer.start.offset < rounds + 1) :
    state.discard.size - state.discard.lexer.start.offset < rounds := by
  have hlt : state.lexer.start.offset < state.lexer.next.offset := hreached.placed.offset_lt heof
  have hnext : state.lexer.next.offset ≤ text.utf8ByteSize :=
    (hreached.reads (.take (.refl _))).within.offset_le
  have hdiscard : state.discard.lexer = state.lexer.advance ∧ state.discard.size = state.size := by
    rw [ParseState.discard, if_neg heof]
    exact ⟨rfl, rfl⟩
  rw [hdiscard.1, hdiscard.2, Lexer.advance_start]
  omega

/-- A token that is discarded on both sides leaves states that are alike. -/
theorem Alike.discard (h : Alike likeness state state')
    (hleaves : List.Forall₂ (Shape.Alike likeness.token) state.leaves state'.leaves) :
    Alike likeness state.discard state'.discard ∧
      List.Forall₂ (Shape.Alike likeness.token) state.discard.leaves state'.discard.leaves := by
  unfold ParseState.discard
  rw [h.kind]
  split
  · exact ⟨h, hleaves⟩
  · refine ⟨⟨likeness.advance h.lexer, h.depth, h.limit, h.size, h.size'⟩, ?_⟩
    simp only [leaves, Array.toList_push, List.filterMap_append] at hleaves ⊢
    exact List.rel_append hleaves
      (.cons (Shape.alike_leaf (likeness.cleared (likeness.current h.lexer)) none) .nil)

/-- Skipping an element takes tokens that are alike, as long as there are rounds for the bytes to
come. -/
theorem Alike.skipElement (h : Alike likeness state state')
    (hleaves : List.Forall₂ (Shape.Alike likeness.token) state.leaves state'.leaves) (braces : Nat)
    (isFirst : Bool) {rounds rounds' : Nat}
    (hr : state.size - state.lexer.start.offset < rounds)
    (hr' : state'.size - state'.lexer.start.offset < rounds') :
    Alike likeness (state.skipElement braces isFirst rounds)
        (state'.skipElement braces isFirst rounds') ∧
      List.Forall₂ (Shape.Alike likeness.token) (state.skipElement braces isFirst rounds).leaves
        (state'.skipElement braces isFirst rounds').leaves := by
  induction rounds generalizing state state' braces isFirst rounds' with
  | zero => exact absurd hr (Nat.not_lt_zero _)
  | succ rounds ih =>
    cases rounds' with
    | zero => exact absurd hr' (Nat.not_lt_zero _)
    | succ rounds' =>
      obtain ⟨hreached, hreached'⟩ := likeness.reached h.lexer
      obtain ⟨hd, hdleaves⟩ := h.discard hleaves
      -- away from the end of the text, both sides can afford to go on
      have hgo (hne : state.kind ≠ .eof) (braces : Nat) :=
        ih hd hdleaves braces false (left_discard_lt hreached h.size hne hr)
          (left_discard_lt hreached' h.size' (h.kind ▸ hne) hr')
      simp only [ParseState.skipElement, h.kind]
      split
      · exact ⟨h, hleaves⟩
      · next hk =>
        split
        · split
          · exact ⟨hd, hdleaves⟩
          · exact ⟨h, hleaves⟩
        · exact ⟨hd, hdleaves⟩
        · exact hgo (by rw [hk]; decide) _
      · next hk =>
        split
        · exact ⟨hd, hdleaves⟩
        · exact hgo (by rw [hk]; decide) _
      · next hk => exact hgo (by rw [hk]; decide) _
      · next hk _ _ _ => exact hgo hk _

end ParseState

def Test.isOrdinary : Test → Bool
  | .label => false
  | .not test => test.isOrdinary
  | .and first second | .or first second => first.isOrdinary && second.isOrdinary
  | _ => true

def Test.seesStates : Test → Bool
  | .peek 0 kinds => kinds == .single .statesKw
  | _ => false

/-- An ordinary test asks nothing that tells two states apart that are alike. -/
theorem Test.holds_alike {state state' : ParseState} (h : state.Alike likeness state')
    {test : Test} (ht : test.isOrdinary = true) : test.holds state' = test.holds state := by
  induction test with
  | peek distance kinds => simp only [holds, likeness.kind (likeness.ahead h.lexer distance)]
  | word words => simp only [holds, h.kind, likeness.word h.current]
  | label => cases ht
  | glued => exact likeness.glued h.current
  | not test ih => simp only [holds, ih ht]
  | and first second ih ih' =>
    obtain ⟨hfirst, hsecond⟩ := Bool.and_eq_true_iff.mp ht
    simp only [holds, ih hfirst, ih' hsecond]
  | or first second ih ih' =>
    obtain ⟨hfirst, hsecond⟩ := Bool.and_eq_true_iff.mp ht
    simp only [holds, ih hfirst, ih' hsecond]

/-- No block of states stands in texts that are alike. -/
theorem Test.holds_of_seesStates {state state' : ParseState} (h : state.Alike likeness state')
    {test : Test} (ht : test.seesStates = true) : test.holds state = false := by
  unfold seesStates at ht
  split at ht
  · next kinds =>
    rw [beq_iff_eq.mp ht, holds, KindSet.contains_single, beq_eq_false_iff_ne]
    exact Ne.symm (likeness.stateless h.lexer)
  · cases ht

namespace Reading

open ParseState

variable {state state' : ParseState}

theorem alike_stay (h : state.Alike likeness state') (verdict : Verdict) :
    Alike likeness (stay state verdict) (stay state' verdict) :=
  ⟨rfl, .nil, .nil, rfl, h.lexer⟩

theorem alike_taken (h : state.Alike likeness state') (field : Option Field) :
    Alike likeness (taken state field) (taken state' field) := by
  unfold taken
  rw [h.kind]
  split
  · exact alike_stay h .done
  · exact ⟨rfl, .cons (Shape.alike_leaf h.current field) .nil, .nil, rfl, likeness.advance h.lexer⟩

theorem alike_failing (h : state.Alike likeness state') {report report' : Diagnostic}
    (hr : report.Alike likeness report') :
    Alike likeness (failing state report) (failing state' report') :=
  ⟨rfl, .nil, .cons hr .nil, rfl, h.lexer⟩

variable {reading reading' : Reading}

theorem Alike.isClean (h : Alike likeness reading reading') :
    reading'.isClean = reading.isClean := by
  rw [Reading.isClean, Reading.isClean, h.verdict, h.failures]

/-- Readings that are alike stay so when they come out differently. -/
theorem Alike.settle (h : Alike likeness reading reading') (verdict : Verdict)
    (misused misused' : Bool) :
    Alike likeness { reading with verdict, misused }
      { reading' with verdict, misused := misused' } :=
  ⟨rfl, h.shapes, h.reports, h.failures, h.lexer⟩

theorem Alike.andThen {second second' : Reading} (h : Alike likeness reading reading')
    (h' : Alike likeness second second') :
    Alike likeness (reading.andThen second) (reading'.andThen second') := by
  refine ⟨h'.verdict, List.rel_append h.shapes h'.shapes, List.rel_append h.reports h'.reports, ?_,
    h'.lexer⟩
  simp only [Reading.andThen, h.failures, h'.failures]

theorem Alike.instead (h : Alike likeness reading reading') (dropped dropped' : Reading) :
    Alike likeness (reading.instead dropped) (reading'.instead dropped') :=
  ⟨h.verdict, h.shapes, h.reports, h.failures, h.lexer⟩

theorem Alike.close (h : Alike likeness reading reading') :
    Alike likeness reading.close reading'.close := by
  unfold Reading.close
  rw [h.verdict]
  split
  · exact ⟨rfl, .cons (Shape.alike_node h.shapes) .nil, h.reports, h.failures, h.lexer⟩
  · exact h.settle .failed _ _

theorem Alike.fill (h : Alike likeness reading reading') (field : Field) :
    Alike likeness (reading.fill field) (reading'.fill field) := by
  unfold Reading.fill
  rw [h.verdict]
  split
  · exact ⟨rfl, Shape.forall₂_fillLast h.shapes field, h.reports, h.failures, h.lexer⟩
  · exact h

/-- Nodes that are put around readings that are alike are alike. -/
theorem Alike.wrap {body body' : Reading} (h : Alike likeness reading reading')
    (hb : Alike likeness body body') :
    Alike likeness (reading.wrap body) (reading'.wrap body') := by
  have hboth := h.andThen hb
  obtain ⟨hfront, hlast⟩ := forall₂_dropLast h.shapes
  unfold Reading.wrap
  rw [hb.verdict]
  split
  · have hnode {kind : Kind} : Shape.Alike likeness.token
        (.node kind none (reading.shapes.getLast?.toList ++ body.shapes))
        (.node kind none (reading'.shapes.getLast?.toList ++ body'.shapes)) :=
      Shape.alike_node (List.rel_append hlast hb.shapes)
    exact ⟨rfl, List.rel_append hfront (.cons hnode .nil), hboth.reports, hboth.failures,
      hboth.lexer⟩
  · exact ⟨hboth.verdict, hboth.shapes, hboth.reports, hboth.failures, hboth.lexer⟩

theorem Alike.skipped (h : Alike likeness reading reading') (hs : state.Alike likeness state') :
    Alike likeness (skipped state reading) (skipped state' reading') := by
  have hbare : state.bare.Alike likeness state'.bare :=
    ⟨hs.lexer, hs.depth, hs.limit, hs.size, hs.size'⟩
  have hrounds : state.bare.size - state.bare.lexer.start.offset < state.rounds :=
    Nat.lt_succ_self _
  have hrounds' : state'.bare.size - state'.bare.lexer.start.offset < state'.rounds :=
    Nat.lt_succ_self _
  obtain ⟨hrest, hleaves⟩ := hbare.skipElement .nil 0 true hrounds hrounds'
  refine ⟨rfl, .cons (Shape.alike_node hleaves) .nil, ?_, rfl, hrest.lexer⟩
  exact forall₂_head? h.reports

/-- That no reading fits is reported with the first complaint of one of them as the reason. -/
theorem alike_ambiguity {lexer lexer' : Lexer} (hl : likeness.lexer lexer lexer')
    {reports reports' : List Diagnostic}
    (hr : List.Forall₂ (Diagnostic.Alike likeness) reports reports') :
    Diagnostic.Alike likeness (ambiguity lexer.current.span reports.head?)
      (ambiguity lexer'.current.span reports'.head?) := by
  refine ⟨rfl, likeness.span (likeness.current hl), fun hv => ?_⟩
  cases hr with
  | nil => rfl
  | cons hfirst _ => simp only [ambiguity, List.head?_cons, hfirst.message hv]

end Reading

namespace Phrase

open ParseState Reading

variable {Rule : Type}

def isOrdinary : Phrase Rule → Bool
  | .relex mode => mode == .angle
  | .seq first second | .both first second => first.isOrdinary && second.isOrdinary
  | .branch test yes no =>
    test.isOrdinary && (test.seesStates || yes.isOrdinary) && no.isOrdinary
  | .loop test body => test.isOrdinary && body.isOrdinary
  | .chain head test _ body => head.isOrdinary && test.isOrdinary && body.isOrdinary
  | .look probe yes no | .attempt probe yes no =>
    probe.isOrdinary && yes.isOrdinary && no.isOrdinary
  | .blame shape reading => shape.isOrdinary && reading.isOrdinary
  | .node body | .slot _ body | .recover body | .absorb body | .nested body => body.isOrdinary
  | _ => true

/-- A way of drawing gives readings that are alike from states that are, unless one of them breaks a
rule of use. -/
def Mirrors (likeness : Likeness text text') (draw : ParseState → Reading) : Prop :=
  ∀ state state' : ParseState, state.Alike likeness state' → (draw state).misused = false →
    (draw state').misused = false → (draw state).Alike likeness (draw state')

theorem Mirrors.andThen {first second : ParseState → Reading} (h : Mirrors likeness first)
    (h' : Mirrors likeness second) :
    Mirrors likeness fun state =>
      (first state).andThen (second (state.moveTo (first state).lexer)) := by
  intro state state' hs hkept hkept'
  obtain ⟨hfirst, hsecond⟩ := Bool.or_eq_false_iff.mp hkept
  obtain ⟨hfirst', hsecond'⟩ := Bool.or_eq_false_iff.mp hkept'
  have halike := h state state' hs hfirst hfirst'
  exact halike.andThen (h' _ _ (hs.moveTo halike.lexer) hsecond hsecond')

-- A phrase that breaks no rule of use starts with one that breaks none.

theorem misused_of_both {drawRule : Rule → ParseState → Reading} {first second : Phrase Rule}
    {state : ParseState} (h : ((both first second).draw drawRule state).misused = false) :
    (first.draw drawRule state).misused = false := by
  simp only [draw] at h
  split at h
  · exact h
  · exact (Bool.or_eq_false_iff.mp h).1

theorem misused_of_chain {drawRule : Rule → ParseState → Reading} {head body : Phrase Rule}
    {test : Test} {field : Kind → Field} {state : ParseState}
    (h : ((chain head test field body).draw drawRule state).misused = false) :
    (head.draw drawRule state).misused = false := by
  simp only [draw] at h
  split at h
  · exact misused_of_drawChain h
  · exact h

theorem misused_of_attempt {drawRule : Rule → ParseState → Reading} {body yes no : Phrase Rule}
    {state : ParseState} (h : ((attempt body yes no).draw drawRule state).misused = false) :
    (body.draw drawRule state).misused = false := by
  simp only [draw] at h
  split at h
  · exact (Bool.or_eq_false_iff.mp h).1
  · exact (Bool.or_eq_false_iff.mp h).1

theorem misused_of_recover {drawRule : Rule → ParseState → Reading} {element : Phrase Rule}
    {state : ParseState} (h : ((recover element).draw drawRule state).misused = false) :
    (element.draw drawRule state).misused = false := by
  simp only [draw] at h
  split at h
  · exact h
  · exact h

theorem misused_of_drawLoop {test : ParseState → Bool} {step : ParseState → Reading}
    {state : ParseState} {rounds : Nat} (htest : test state = true)
    (h : (drawLoop test step state (rounds + 1)).misused = false) :
    (step state).misused = false := by
  simp only [drawLoop, if_pos htest] at h
  split at h
  · exact h
  · exact (Bool.or_eq_false_iff.mp h).1

/-- The rounds of two loops go along with each other. Their numbers may differ, since a loop that
runs out of rounds breaks a rule of use. -/
theorem Mirrors.loop {test : Test} (ht : test.isOrdinary = true) {step : ParseState → Reading}
    (h : Mirrors likeness step) {state state' : ParseState} (hs : state.Alike likeness state')
    {rounds rounds' : Nat}
    (hkept : (drawLoop (fun state => test.holds state) step state rounds).misused = false)
    (hkept' : (drawLoop (fun state => test.holds state) step state' rounds').misused = false) :
    (drawLoop (fun state => test.holds state) step state rounds).Alike likeness
      (drawLoop (fun state => test.holds state) step state' rounds') := by
  induction rounds generalizing state state' rounds' with
  | zero => cases hkept
  | succ rounds ih =>
    cases rounds' with
    | zero => cases hkept'
    | succ rounds' =>
      have htest := Test.holds_alike hs ht
      by_cases hholds : test.holds state = true
      · have halike := h state state' hs (misused_of_drawLoop hholds hkept)
          (misused_of_drawLoop (htest.trans hholds) hkept')
        simp only [drawLoop, htest, if_pos hholds] at hkept hkept' ⊢
        rw [halike.verdict] at hkept' ⊢
        by_cases hv : (step state).verdict = .failed
        · rw [if_pos hv, if_pos hv]
          exact halike.settle .done _ _
        · rw [if_neg hv] at hkept hkept' ⊢
          rw [if_neg hv]
          exact halike.andThen (ih (hs.moveTo halike.lexer) (Bool.or_eq_false_iff.mp hkept).2
            (Bool.or_eq_false_iff.mp hkept').2)
      · simp only [drawLoop, htest, if_neg hholds]
        exact alike_stay hs .done

/-- By induction on the rounds of the first reading. The second one makes as many, since the test
has the same answers. -/
theorem Mirrors.chain {test : Test} (ht : test.isOrdinary = true) {field : Kind → Field}
    {step : ParseState → Reading} (h : Mirrors likeness step) {state state' : ParseState}
    (hs : state.Alike likeness state') {reading reading' : Reading}
    (hr : reading.Alike likeness reading') {rounds rounds' : Nat}
    (hkept : (drawChain (fun state => test.holds state) field step state reading
      rounds).misused = false)
    (hkept' : (drawChain (fun state => test.holds state) field step state' reading'
      rounds').misused = false) :
    (drawChain (fun state => test.holds state) field step state reading rounds).Alike likeness
      (drawChain (fun state => test.holds state) field step state' reading' rounds') := by
  induction rounds generalizing state state' reading reading' rounds' with
  | zero => cases hkept
  | succ rounds ih =>
    cases rounds' with
    | zero => cases hkept'
    | succ rounds' =>
      have hmoved := hs.moveTo hr.lexer
      simp only [drawChain, Test.holds_alike hmoved ht, hmoved.kind] at hkept hkept' ⊢
      by_cases hholds : test.holds (state.moveTo reading.lexer) = true
      · simp only [if_pos hholds] at hkept hkept' ⊢
        -- a broken rule of use would stop the chain, but none is broken here
        by_cases hw : ((reading.fill (field (state.moveTo reading.lexer).kind)).wrap
            (step (state.moveTo reading.lexer))).misused = true
        · rw [if_pos hw, hw] at hkept
          cases hkept
        by_cases hw' : ((reading'.fill (field (state.moveTo reading.lexer).kind)).wrap
            (step (state'.moveTo reading'.lexer))).misused = true
        · rw [if_pos hw', hw'] at hkept'
          cases hkept'
        rw [if_neg hw] at hkept ⊢
        rw [if_neg hw'] at hkept' ⊢
        obtain ⟨-, -, -, -, hbody⟩ := chose_of_wrap (Bool.eq_false_iff.mpr hw)
        obtain ⟨-, -, -, -, hbody'⟩ := chose_of_wrap (Bool.eq_false_iff.mpr hw')
        have hwrapped := (hr.fill (field (state.moveTo reading.lexer).kind)).wrap
          (h _ _ hmoved hbody hbody')
        exact ih hmoved hwrapped hkept hkept'
      · rw [if_neg hholds, if_neg hholds]
        exact hr

/-- An ordinary phrase gives readings that are alike from states that are, if the rules do. -/
theorem Mirrors.phrase {drawRule : Rule → ParseState → Reading}
    (hrules : ∀ rule, Mirrors likeness (drawRule rule)) {phrase : Phrase Rule}
    (h : phrase.isOrdinary = true) : Mirrors likeness (phrase.draw drawRule) := by
  induction phrase with
  | done => exact fun state state' hs _ _ => alike_stay hs .done
  | reject => exact fun state state' hs _ _ => alike_stay hs .failed
  | choose kind => exact fun state state' hs _ _ => alike_stay hs (.chose kind)
  | take field => exact fun state state' hs _ _ => alike_taken hs field
  | expect kind field =>
    intro state state' hs _ _
    simp only [draw, hs.kind]
    split
    · exact alike_taken hs field
    · exact alike_failing hs (hs.complaint fun hv => hs.missing hv _)
  | close kind =>
    intro state state' hs _ _
    simp only [draw, hs.kind]
    split
    · exact alike_taken hs none
    · exact ⟨rfl, .nil, .cons ⟨rfl, likeness.span hs.current, fun hv => hs.missing hv _⟩ .nil, rfl,
        hs.lexer⟩
  | missing what =>
    exact fun state state' hs _ _ => alike_failing hs (hs.complaint fun hv => hs.missing hv what)
  | refuse message =>
    exact fun state state' hs _ _ => alike_failing hs (hs.complaint fun _ => rfl)
  | demand kind => exact fun state state' hs _ _ => ⟨rfl, .nil, .nil, rfl, hs.lexer⟩
  | relex mode =>
    -- state lines are not among the ordinary phrases, so this is the only other mode
    obtain rfl : mode = .angle := beq_iff_eq.mp h
    exact fun state state' hs _ _ => ⟨rfl, .nil, .nil, rfl, likeness.angle hs.lexer⟩
  | seq first second ih ih' =>
    obtain ⟨hfirst, hsecond⟩ := Bool.and_eq_true_iff.mp h
    exact (ih hfirst).andThen (ih' hsecond)
  | both first second ih ih' =>
    obtain ⟨hfirst, hsecond⟩ := Bool.and_eq_true_iff.mp h
    intro state state' hs hkept hkept'
    have halike := ih hfirst state state' hs (misused_of_both hkept) (misused_of_both hkept')
    simp only [draw] at hkept hkept' ⊢
    rw [halike.verdict] at hkept' ⊢
    split
    · exact halike
    · next hv =>
      rw [if_neg hv] at hkept hkept'
      exact (ih hfirst).andThen (ih' hsecond) state state' hs hkept hkept'
  | branch test yes no ih ih' =>
    simp only [isOrdinary, Bool.and_eq_true, Bool.or_eq_true] at h
    obtain ⟨⟨htest, hyes⟩, hno⟩ := h
    intro state state' hs hkept hkept'
    simp only [draw, Test.holds_alike hs htest] at hkept hkept' ⊢
    by_cases hholds : test.holds state = true
    · rw [if_pos hholds] at hkept hkept' ⊢
      rw [if_pos hholds]
      -- a branch that asks for `states` is never taken on both sides, so what it holds does not
      -- matter
      rcases hyes with hstates | hyes
      · rw [Test.holds_of_seesStates hs hstates] at hholds
        cases hholds
      · exact ih hyes state state' hs hkept hkept'
    · rw [if_neg hholds] at hkept hkept' ⊢
      rw [if_neg hholds]
      exact ih' hno state state' hs hkept hkept'
  | loop test body ih =>
    obtain ⟨htest, hbody⟩ := Bool.and_eq_true_iff.mp h
    exact fun state state' hs hkept hkept' => (ih hbody).loop htest hs hkept hkept'
  | node body ih =>
    intro state state' hs hkept hkept'
    exact (ih h state state' hs (misused_of_close hkept) (misused_of_close hkept')).close
  | slot field body ih =>
    intro state state' hs hkept hkept'
    have halike := ih h state state' hs (misused_of_fill hkept) (misused_of_fill hkept')
    simp only [draw, (hs.moveTo halike.lexer).kind]
    exact halike.fill _
  | chain head test field body ih ih' =>
    simp only [isOrdinary, Bool.and_eq_true] at h
    obtain ⟨⟨hhead, htest⟩, hbody⟩ := h
    intro state state' hs hkept hkept'
    have halike := ih hhead state state' hs (misused_of_chain hkept) (misused_of_chain hkept')
    simp only [draw] at hkept hkept' ⊢
    rw [halike.verdict] at hkept' ⊢
    by_cases hv : (head.draw drawRule state).verdict = .node
    · rw [if_pos hv] at hkept hkept' ⊢
      rw [if_pos hv]
      exact (ih' hbody).chain htest hs halike hkept hkept'
    · rw [if_neg hv, if_neg hv]
      exact halike.settle .failed _ _
  | look probe yes no ih ih' ih'' =>
    simp only [isOrdinary, Bool.and_eq_true] at h
    obtain ⟨⟨hprobe, hyes⟩, hno⟩ := h
    intro state state' hs hkept hkept'
    obtain ⟨hprobed, hrest⟩ := Bool.or_eq_false_iff.mp hkept
    obtain ⟨hprobed', hrest'⟩ := Bool.or_eq_false_iff.mp hkept'
    have halike := ih hprobe state state' hs hprobed hprobed'
    simp only [draw, halike.isClean] at hrest' ⊢
    by_cases hc : (probe.draw drawRule state).isClean = true
    · rw [if_pos hc] at hrest hrest'
      rw [if_pos hc, if_pos hc]
      exact (ih' hyes state state' hs hrest hrest').instead _ _
    · rw [if_neg hc] at hrest hrest'
      rw [if_neg hc, if_neg hc]
      exact (ih'' hno state state' hs hrest hrest').instead _ _
  | attempt body yes no ih ih' ih'' =>
    simp only [isOrdinary, Bool.and_eq_true] at h
    obtain ⟨⟨hbody, hyes⟩, hno⟩ := h
    intro state state' hs hkept hkept'
    have halike := ih hbody state state' hs (misused_of_attempt hkept) (misused_of_attempt hkept')
    simp only [draw] at hkept hkept' ⊢
    -- both attempts are clean or neither is, so both texts go on in the same way
    rw [halike.isClean] at hkept' ⊢
    by_cases hc : (body.draw drawRule state).isClean = true
    · rw [if_pos hc] at hkept hkept' ⊢
      rw [if_pos hc]
      exact (ih hbody).andThen (ih' hyes) state state' hs hkept hkept'
    · rw [if_neg hc] at hkept hkept' ⊢
      rw [if_neg hc]
      exact (ih'' hno state state' hs (Bool.or_eq_false_iff.mp hkept).2
        (Bool.or_eq_false_iff.mp hkept').2).instead _ _
  | blame shape reading ih ih' =>
    obtain ⟨hshape, hreading⟩ := Bool.and_eq_true_iff.mp h
    intro state state' hs hkept hkept'
    obtain ⟨hone, htwo⟩ := Bool.or_eq_false_iff.mp hkept
    obtain ⟨hone', htwo'⟩ := Bool.or_eq_false_iff.mp hkept'
    have hshaped := ih hshape state state' hs hone hone'
    have hread := ih' hreading state state' hs htwo htwo'
    exact ⟨rfl, .nil, .cons (alike_ambiguity hshaped.lexer hread.reports) .nil, rfl, hs.lexer⟩
  | recover element ih =>
    intro state state' hs hkept hkept'
    have halike := ih h state state' hs (misused_of_recover hkept) (misused_of_recover hkept')
    simp only [draw, halike.failures]
    split
    · exact ⟨rfl, halike.shapes, halike.reports, rfl, halike.lexer⟩
    · -- what is skipped is told from kinds alone, and these are the same
      exact halike.skipped hs
  | absorb body ih =>
    intro state state' hs hkept hkept'
    have halike := ih h state state' hs hkept hkept'
    exact ⟨halike.verdict, halike.shapes, halike.reports, rfl, halike.lexer⟩
  | nested body ih =>
    intro state state' hs hkept hkept'
    simp only [draw, hs.limit, hs.depth] at hkept hkept' ⊢
    split
    · exact alike_failing hs hs.depthComplaint
    · next hl =>
      rw [if_neg hl] at hkept hkept'
      exact ih h _ _ ⟨hs.lexer, rfl, rfl, hs.size, hs.size'⟩ hkept hkept'
  | call rule => exact hrules rule

/-- So do the rules of a grammar of ordinary phrases. -/
theorem mirrors_drawRule {grammar : Rule → Phrase Rule}
    (h : ∀ rule, (grammar rule).isOrdinary = true) (budget : Nat) (rule : Rule) :
    Mirrors likeness (drawRule grammar budget rule) := by
  induction budget generalizing rule with
  | zero => exact fun state state' hs hkept _ => nomatch hkept
  | succ budget ih => exact Mirrors.phrase ih (h rule)

end Phrase

end ScriptTree

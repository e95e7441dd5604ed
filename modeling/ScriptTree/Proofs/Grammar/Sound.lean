import ScriptTree.Proofs.Grammar.Scan
import ScriptTree.Proofs.Parser.Account
import ScriptTree.Proofs.Parser.Tidy

/-!
Scans are sound: what a scan gives for a phrase holds of every reading of the phrase, from every
state that the sight sees. In particular the reading keeps the rules of use and runs out of no
bound.
-/

namespace ScriptTree

theorem Reading.Accounted.offset_le {lexer : Lexer} {reading : Reading}
    (h : reading.Accounted lexer) (hp : lexer.Placed) :
    lexer.start.offset ≤ reading.lexer.start.offset := by
  obtain ⟨tokens, hreads, _⟩ := h.reads
  obtain ⟨chars, hc⟩ := (hreads.tiled hp).passes
  exact hc.offset_le

namespace ParseState

def Grounded (state : ParseState) : Prop :=
  ∃ text : String, state.size = text.utf8ByteSize ∧ state.lexer.Reached text

theorem Grounded.placed {state : ParseState} (h : state.Grounded) : state.lexer.Placed := by
  obtain ⟨text, _, hr⟩ := h
  exact hr.placed

theorem Grounded.offset_le {state : ParseState} (h : state.Grounded) :
    state.lexer.start.offset ≤ state.size := by
  obtain ⟨text, hs, hr⟩ := h
  rw [hs]
  exact hr.within.offset_le

theorem Grounded.moveTo {state : ParseState} {reading : Reading} (h : state.Grounded)
    (hr : reading.Accounted state.lexer) : (state.moveTo reading.lexer).Grounded := by
  obtain ⟨text, hs, hreached⟩ := h
  obtain ⟨tokens, hreads, _⟩ := hr.reads
  exact ⟨text, hs, hreached.reads hreads⟩

def Affords (state : ParseState) (bound budget : Nat) : Prop :=
  8 * (state.limit - state.depth) + bound ≤ budget

end ParseState

namespace Sight

structure Stands (sight : Sight) (origin bound budget : Nat) (state : ParseState) : Prop where
  sees : sight.Sees origin state
  grounded : state.Grounded
  origin_le : origin ≤ state.lexer.start.offset
  affords : state.Affords bound budget

variable {sight : Sight} {origin bound budget : Nat} {state : ParseState}

theorem Stands.with_sight (h : sight.Stands origin bound budget state) {known : Sight}
    (hk : known.Sees origin state) : known.Stands origin bound budget state :=
  ⟨hk, h.grounded, h.origin_le, h.affords⟩

theorem Stands.moveTo (h : sight.Stands origin bound budget state) {reading : Reading}
    (hr : reading.Accounted state.lexer) {known : Sight}
    (hk : known.Sees origin (state.moveTo reading.lexer)) :
    known.Stands origin bound budget (state.moveTo reading.lexer) :=
  ⟨hk, h.grounded.moveTo hr, Nat.le_trans h.origin_le (hr.offset_le h.grounded.placed), h.affords⟩

theorem Sees.still (h : sight.Sees origin state) (origin' : Nat) :
    sight.still.Sees origin' state :=
  ⟨h.behind, h.here, h.next, h.after, h.room, h.label, fun ht => absurd ht (by simp [Sight.still])⟩

theorem Sees.onward (h : sight.Sees origin state) {origin' : Nat}
    (ho : origin' < state.lexer.start.offset) : sight.onward.Sees origin' state :=
  ⟨h.behind, h.here, h.next, h.after, h.room, h.label, fun _ => ho⟩

/-- The sight at the same place with the origin there. -/
theorem Stands.still (h : sight.Stands origin bound budget state) :
    sight.still.Stands state.lexer.start.offset bound budget state :=
  ⟨h.sees.still _, h.grounded, Nat.le_refl _, h.affords⟩

theorem Sees.from_earlier (h : sight.Sees origin state) {origin' : Nat} (ho : origin' ≤ origin) :
    sight.Sees origin' state :=
  ⟨h.behind, h.here, h.next, h.after, h.room, h.label, fun hm => Nat.lt_of_le_of_lt ho (h.moved hm)⟩

theorem Finds.of_followed {found : Option Sight} {scan : Sight → Option Exits} {exits : Exits}
    (h : Finds found origin state) (hf : followed found scan = some exits) :
    ∃ known, scan known = some exits ∧ known.Sees origin state := by
  obtain ⟨known, rfl, hs⟩ := h
  exact ⟨known, hf, hs⟩

end Sight

def Care.Admits (care : Care) (reading : Reading) : Prop :=
  care.isClean = true → reading.failures = 0

structure Exits.Covers (exits : Exits) (care : Care) (origin : Nat) (state : ParseState)
    (reading : Reading) : Prop where
  keeps : reading.misused = false
  named : reading.verdict ≠ .chose .tombstone
  tidy : care.isTidy = true → Shape.Tidy reading.shapes
  finds : Sight.Finds (exits.behind reading.verdict) origin (state.moveTo reading.lexer)

namespace Exits

open Sight

variable {exits : Exits} {care : Care} {origin : Nat} {state : ParseState} {reading : Reading}

theorem finds_fits (h : Finds (exits.behind reading.verdict) origin state)
    (hv : reading.verdict ≠ .failed) : Finds exits.fits origin state := by
  cases hr : reading.verdict <;> rw [hr] at h
  · exact absurd hr hv
  · exact h.join_left _
  · exact (h.join_left _).join_right _
  · exact (h.join_right _).join_right _

theorem finds_all (h : Finds (exits.behind reading.verdict) origin state) :
    Finds exits.all origin state := by
  by_cases hv : reading.verdict = .failed
  · rw [hv] at h
    exact h.join_left _
  · exact (finds_fits h hv).join_right _

theorem Covers.join_left (h : exits.Covers care origin state reading) (other : Exits) :
    (exits.join other).Covers care origin state reading := by
  refine ⟨h.keeps, h.named, h.tidy, ?_⟩
  have hf := h.finds
  cases hr : reading.verdict <;> rw [hr] at hf <;> exact hf.join_left _

theorem Covers.join_right (h : exits.Covers care origin state reading) (other : Exits) :
    (other.join exits).Covers care origin state reading := by
  refine ⟨h.keeps, h.named, h.tidy, ?_⟩
  have hf := h.finds
  cases hr : reading.verdict <;> rw [hr] at hf <;> exact hf.join_right _

theorem Covers.map (h : exits.Covers care origin state reading) {f : Sight → Sight}
    {origin' : Nat} {state' : ParseState}
    (hf : ∀ known, known.Sees origin (state.moveTo reading.lexer) →
      (f known).Sees origin' (state'.moveTo reading.lexer)) :
    (exits.map f).Covers care origin' state' reading := by
  refine ⟨h.keeps, h.named, h.tidy, ?_⟩
  obtain ⟨known, he, hs⟩ := h.finds
  refine ⟨f known, ?_, hf known hs⟩
  cases hr : reading.verdict <;> rw [hr] at he <;> simp [behind, Exits.map] at he ⊢ <;>
    exact ⟨known, he, rfl⟩

theorem Covers.with_care (h : exits.Covers .clean origin state reading) (care : Care) :
    exits.Covers care origin state reading :=
  ⟨h.keeps, h.named, fun _ => h.tidy rfl, h.finds⟩

theorem leads_finds {a b : Option Sight} (h : leads a b = true) (hf : Finds a origin state) :
    Finds b origin state := by
  obtain ⟨known, rfl, hs⟩ := hf
  cases b with
  | none => cases h
  | some b => exact ⟨b, rfl, hs.weaken h⟩

theorem Covers.weaken (h : exits.Covers care origin state reading) {other : Exits}
    (hc : exits.covers other = true) : other.Covers care origin state reading := by
  refine ⟨h.keeps, h.named, h.tidy, ?_⟩
  simp only [covers, Bool.and_eq_true] at hc
  have hf := h.finds
  cases hr : reading.verdict <;> rw [hr] at hf
  · exact leads_finds hc.1.1.1 hf
  · exact leads_finds hc.1.1.2 hf
  · exact leads_finds hc.1.2 hf
  · exact leads_finds hc.2 hf

end Exits

theorem Care.Admits.andThen {care : Care} {first second : Reading}
    (h : care.Admits (first.andThen second)) : care.Admits first ∧ care.Admits second := by
  have hz (hc : care.isClean = true) := Nat.add_eq_zero_iff.mp (h hc)
  exact ⟨fun hc => (hz hc).1, fun hc => (hz hc).2⟩

/-- The failures of a link are among those of the chain. -/
theorem Care.Admits.of_drawChain {care : Care} {test : ParseState → Bool} {field : Kind → Field}
    {step : ParseState → Reading} {state : ParseState} {reading : Reading} {limit : Nat}
    (h : care.Admits (Phrase.drawChain test field step state reading (limit + 1)))
    (ht : test (state.moveTo reading.lexer) = true) :
    care.Admits (step (state.moveTo reading.lexer)) := by
  intro hc
  have hz := h hc
  simp only [Phrase.drawChain, if_pos ht] at hz
  have hsum := Reading.failures_wrap (reading.fill (field (state.moveTo reading.lexer).kind))
    (step (state.moveTo reading.lexer))
  split at hz
  · omega
  · have hle := Phrase.failures_le_drawChain test field step (state.moveTo reading.lexer)
      ((reading.fill (field (state.moveTo reading.lexer).kind)).wrap
        (step (state.moveTo reading.lexer))) limit
    omega

theorem Exits.Covers.andThen {exits exits' : Exits} {care : Care} {origin : Nat}
    {state : ParseState} {first second : Reading} (h : exits.Covers care origin state first)
    (h' : exits'.Covers care origin (state.moveTo first.lexer) second) :
    exits'.Covers care origin state (first.andThen second) := by
  refine ⟨?_, h'.named, fun ht => Shape.tidy_append.mpr ⟨h.tidy ht, h'.tidy ht⟩, h'.finds⟩
  simp [Reading.andThen, h.keeps, h'.keeps]

theorem Exits.Covers.instead {exits : Exits} {care : Care} {origin : Nat} {state : ParseState}
    {reading dropped : Reading} (h : exits.Covers care origin state reading)
    (hd : dropped.misused = false) :
    exits.Covers care origin state (reading.instead dropped) :=
  ⟨by simp [Reading.instead, hd, h.keeps], h.named, h.tidy, h.finds⟩

/-- What a scan gives holds of every reading from where it starts. -/
def Follows (budget : Nat) (draw : ParseState → Reading) (care : Care) (bound : Nat)
    (sight : Sight) (exits : Exits) : Prop :=
  ∀ origin state, sight.Stands origin bound budget state → care.Admits (draw state) →
    exits.Covers care origin state (draw state)

namespace Sight

variable {test : Test} {scan : Sight → Option Exits} {ends : Exits → Option (Option Sight)}
  {head : Sight} {origin bound budget : Nat} {state : ParseState}

theorem steady?_spec {round : Sight → Option (Option Sight)} {entry : Sight}
    (h : steady? round entry = some head) :
    entry.knows head = true ∧ isSteady round head = true := by
  simpa using List.find?_some h

/-- A round starts from where its scan starts, and what is known behind it is known again. -/
theorem Stands.round (h : head.Stands origin bound budget state)
    (hs : isSteady (round test scan ends) head = true) (ht : test.holds state = true) :
    ∃ start exits found, head.assume test true = some start ∧ scan start.still = some exits ∧
      ends exits = some found ∧
      start.still.Stands state.lexer.start.offset bound budget state ∧
      ∀ known, found = some known → known.moved = true ∧ known.still.knows head = true := by
  obtain ⟨start, he, hstart⟩ := h.sees.assume test
  rw [ht] at he
  simp only [isSteady, Sight.round, he] at hs
  cases hscan : scan start.still with
  | none => simp [hscan] at hs
  | some exits =>
    cases hends : ends exits with
    | none => simp [hscan, hends] at hs
    | some found =>
      refine ⟨start, exits, found, he, hscan, hends, (h.with_sight hstart).still, ?_⟩
      rintro known rfl
      simp only [hscan, hends, Option.bind_some] at hs
      by_cases hm : known.moved = true
      · simp only [hm, if_true] at hs
        exact ⟨hm, hs⟩
      · simp [hm] at hs

/-- Behind a round that leads to another one, something was taken and the sight is right again. -/
theorem Stands.again (h : head.Stands origin bound budget state) {reading : Reading}
    (hr : reading.Accounted state.lexer) {found : Option Sight}
    (hfound : ∀ known, found = some known → known.moved = true ∧ known.still.knows head = true)
    (hf : Finds found state.lexer.start.offset (state.moveTo reading.lexer)) :
    state.lexer.start.offset < reading.lexer.start.offset ∧
      head.Stands reading.lexer.start.offset bound budget (state.moveTo reading.lexer) := by
  obtain ⟨known, rfl, hsees⟩ := hf
  obtain ⟨hmoved, hknows⟩ := hfound known rfl
  exact ⟨hsees.moved hmoved, (hsees.still _).weaken hknows, h.grounded.moveTo hr, Nat.le_refl _,
    h.affords⟩

end Sight

namespace Phrase

open Sight Reading ParseState

variable {test : Test} {scan : Sight → Option Exits} {step : ParseState → Reading}
  {care : Care} {head : Sight} {bound budget : Nat}

def Stops (test : Test) (head : Sight) (state : ParseState) (lexer : Lexer) : Prop :=
  (test.holds state = false ∧ lexer = state.lexer) ∨
  (test.holds state = true ∧ state.lexer.start.offset < lexer.start.offset ∧
    ∃ known, head.assume test false = some known ∧
      known.Sees lexer.start.offset (state.moveTo lexer))

def Breaks (test : Test) (scan : Sight → Option Exits) (head : Sight) (state : ParseState)
    (lexer : Lexer) : Prop :=
  ∃ last known, followed ((head.assume test true).map still) scan = some last ∧
    last.failed = some known ∧ known.Sees state.lexer.start.offset (state.moveTo lexer)

/-- One more round in front of a repetition. -/
theorem Stops.behind_round {state : ParseState} {lexer lexer' : Lexer}
    (hhead : head.Sees lexer.start.offset (state.moveTo lexer))
    (ht : test.holds state = true) (hlt : state.lexer.start.offset < lexer.start.offset)
    (h : Stops test head (state.moveTo lexer) lexer') : Stops test head state lexer' := by
  rcases h with ⟨hfalse, rfl⟩ | ⟨_, hfurther, hknown⟩
  · obtain ⟨known, hknown, hsees⟩ := hhead.assume test
    rw [hfalse] at hknown
    exact Or.inr ⟨ht, hlt, known, hknown, hsees⟩
  · exact Or.inr ⟨ht, Nat.lt_trans hlt hfurther, hknown⟩

/-- What is known behind a repetition that stops. -/
theorem Stops.finds_ended {sight : Sight} {origin : Nat} {state : ParseState} {lexer : Lexer}
    (hs : sight.Stands origin bound budget state) (h : Stops test head state lexer) :
    Finds (ended test sight head) origin (state.moveTo lexer) := by
  have hassume := hs.sees.assume test
  rcases h with ⟨hfalse, rfl⟩ | ⟨ht, hlt, known, hknown, hsees⟩
  · rw [hfalse] at hassume
    exact hassume.join_left _
  · rw [ht] at hassume
    obtain ⟨_, hsome, _⟩ := hassume
    refine Finds.join_right ⟨known.onward, ?_, ?_⟩ _
    · rw [hsome, hknown]
      rfl
    · exact hsees.onward (Nat.lt_of_le_of_lt hs.origin_le hlt)

/-- By induction on the rounds: a steady sight holds again behind each of them, and the text runs
out before the rounds do. -/
theorem covers_rounds (hscan : ∀ sight exits, scan sight = some exits →
      Follows budget step care bound sight exits) (hacc : Accounts step)
    (hs : isSteady (round test scan Exits.again) head = true) (limit : Nat)
    {state : ParseState} (h : head.Stands state.lexer.start.offset bound budget state)
    (hl : state.size < state.lexer.start.offset + limit)
    (ha : care.Admits (drawLoop (fun state => test.holds state) step state limit)) :
    (drawLoop (fun state => test.holds state) step state limit).misused = false ∧
    (care.isTidy = true →
      Shape.Tidy (drawLoop (fun state => test.holds state) step state limit).shapes) ∧
    (drawLoop (fun state => test.holds state) step state limit).verdict = .done ∧
    (Stops test head state (drawLoop (fun state => test.holds state) step state limit).lexer ∨
      Breaks test scan head state
        (drawLoop (fun state => test.holds state) step state limit).lexer) := by
  induction limit generalizing state with
  | zero => exact absurd h.grounded.offset_le (by omega)
  | succ limit ih =>
    simp only [drawLoop] at ha ⊢
    by_cases ht : test.holds state = true
    · rw [if_pos ht] at ha ⊢
      obtain ⟨start, exits, found, hassume, hexits, hends, hstart, hfound⟩ := h.round hs ht
      by_cases hv : (step state).verdict = .failed
      · rw [if_pos hv] at ha ⊢
        have hc := hscan _ _ hexits _ _ hstart ha
        refine ⟨hc.keeps, hc.tidy, rfl, Or.inr ?_⟩
        have hfinds := hc.finds
        rw [hv] at hfinds
        obtain ⟨known, hknown, hsees⟩ := hfinds
        exact ⟨exits, known, by rw [hassume]; exact hexits, hknown, hsees⟩
      · rw [if_neg hv] at ha ⊢
        have hc := hscan _ _ hexits _ _ hstart ha.andThen.1
        obtain rfl := Option.some.inj hends
        obtain ⟨hlt, hnext⟩ := h.again (hacc state) hfound (Exits.finds_fits hc.finds hv)
        obtain ⟨hkeeps, htidy, hverdict, hrest⟩ := ih hnext
          (show state.size < (step state).lexer.start.offset + limit by omega) ha.andThen.2
        refine ⟨?_, fun hc' => Shape.tidy_append.mpr ⟨hc.tidy hc', htidy hc'⟩, hverdict, ?_⟩
        · simp [Reading.andThen, hc.keeps, hkeeps]
        · rcases hrest with hstops | ⟨last, known', hlast, hfailed, hsees'⟩
          · exact Or.inl (hstops.behind_round hnext.sees ht hlt)
          · exact Or.inr ⟨last, known', hlast, hfailed, hsees'.from_earlier (Nat.le_of_lt hlt)⟩
    · rw [if_neg ht] at ha ⊢
      exact ⟨rfl, fun _ => Shape.tidy_nil, rfl, Or.inl (Or.inl ⟨Bool.eq_false_iff.mpr ht, rfl⟩)⟩

theorem misused_fill (reading : Reading) (field : Field) :
    (reading.fill field).misused = reading.misused := by
  unfold fill
  split <;> rfl

/-- Where every way out settles a kind, this one did, and what is known of all of them is so behind
it. -/
theorem settled_finds {exits : Exits} {found : Option Sight} {verdict : Verdict} {origin : Nat}
    {state : ParseState} (h : exits.settled = some found)
    (hf : Finds (exits.behind verdict) origin state) :
    (∃ kind, verdict = .chose kind) ∧ Finds found origin state := by
  obtain ⟨known, hknown, hsees⟩ := hf
  unfold Exits.settled at h
  split at h
  · cases h
  · next hnone =>
    simp only [Bool.or_eq_true, not_or, Bool.not_eq_true, Option.isSome_eq_false_iff,
      Option.isNone_iff_eq_none] at hnone
    obtain rfl := Option.some.inj h
    cases verdict with
    | chose kind => exact ⟨⟨kind, rfl⟩, known, hknown, hsees⟩
    | failed => simp [Exits.behind, hnone] at hknown
    | done => simp [Exits.behind, hnone] at hknown
    | node => simp [Exits.behind, hnone] at hknown

/-- A node around the node of a reading and a body that settles its kind. -/
theorem covers_link {exits : Exits} {origin : Nat} {state : ParseState} {reading body : Reading}
    (h : exits.Covers care origin state body) (hv : reading.verdict = .node)
    (hk : reading.misused = false) (hd : care.isTidy = true → Shape.Tidy reading.shapes)
    {kind : Kind} (hkind : body.verdict = .chose kind) (slot : Field) :
    ((reading.fill slot).wrap body).misused = false ∧
    ((reading.fill slot).wrap body).verdict = .node ∧
    ((reading.fill slot).wrap body).lexer = body.lexer ∧
    (care.isTidy = true → Shape.Tidy ((reading.fill slot).wrap body).shapes) := by
  have hne : kind ≠ .tombstone := fun he => h.named (he ▸ hkind)
  rw [wrap_of_chose hkind, fill_of_node hv]
  refine ⟨?_, rfl, rfl, fun ht => Shape.tidy_wrap (Shape.tidy_fillLast (hd ht)) (h.tidy ht)⟩
  simp [Reading.andThen, hk, h.keeps, hne]

/-- By induction on the rounds, as for loops. Each round settles a kind, so the chain remains a
node. -/
theorem covers_chain {field : Kind → Field} (hscan : ∀ sight exits, scan sight = some exits →
      Follows budget step care bound sight exits) (hacc : Accounts step)
    (hs : isSteady (round test scan Exits.settled) head = true) (limit : Nat)
    {state : ParseState} {reading : Reading}
    (h : head.Stands reading.lexer.start.offset bound budget (state.moveTo reading.lexer))
    (hv : reading.verdict = .node) (hk : reading.misused = false)
    (hd : care.isTidy = true → Shape.Tidy reading.shapes)
    (hl : state.size < reading.lexer.start.offset + limit)
    (ha : care.Admits (drawChain (fun state => test.holds state) field step state reading limit)) :
    (drawChain (fun state => test.holds state) field step state reading limit).misused = false ∧
    (care.isTidy = true → Shape.Tidy
      (drawChain (fun state => test.holds state) field step state reading limit).shapes) ∧
    (drawChain (fun state => test.holds state) field step state reading limit).verdict = .node ∧
    Stops test head (state.moveTo reading.lexer)
      (drawChain (fun state => test.holds state) field step state reading limit).lexer := by
  induction limit generalizing state reading with
  | zero =>
    have := h.grounded.offset_le
    exact absurd this (by simp only [moveTo]; omega)
  | succ limit ih =>
    by_cases ht : test.holds (state.moveTo reading.lexer) = true
    · have hadmits := ha.of_drawChain ht
      simp only [drawChain] at ha ⊢
      rw [if_pos ht] at ha ⊢
      obtain ⟨start, exits, found, hassume, hexits, hends, hstart, hfound⟩ := h.round hs ht
      have hacc' := hacc (state.moveTo reading.lexer)
      have hcovers := hscan _ _ hexits _ _ hstart
      generalize step (state.moveTo reading.lexer) = body at ha hadmits hacc' hcovers ⊢
      generalize field (state.moveTo reading.lexer).kind = slot at ha ⊢
      obtain ⟨⟨kind, hkind⟩, hfinds⟩ := settled_finds hends (hcovers hadmits).finds
      obtain ⟨hlt, hnext⟩ := h.again hacc' hfound hfinds
      obtain ⟨hkeeps, hnode, hlexer, htidy⟩ := covers_link (hcovers hadmits) hv hk hd hkind slot
      rw [if_neg (by rw [hkeeps]; exact Bool.noConfusion)] at ha ⊢
      obtain ⟨hkeeps', htidy', hnode', hstops⟩ := ih (by rw [hlexer]; exact hnext) hnode hkeeps
        htidy (by rw [hlexer]; simp only [moveTo] at hlt ⊢; omega) ha
      rw [hlexer] at hstops
      exact ⟨hkeeps', htidy', hnode', hstops.behind_round hnext.sees ht hlt⟩
    · simp only [drawChain] at ha ⊢
      rw [if_neg ht] at ha ⊢
      exact ⟨hk, hd, hv, Or.inl ⟨Bool.eq_false_iff.mpr ht, rfl⟩⟩

end Phrase

/-- Tokens that are taken before the end of the text have moved the lexer on. -/
theorem Lexer.Reads.offset_lt {a b : Lexer} {tokens : List Token} (h : Lexer.Reads a tokens b)
    (ha : a.Placed) (hne : tokens ≠ []) (heof : ∀ token ∈ tokens, token.kind ≠ .eof) :
    a.start.offset < b.start.offset := by
  induction h with
  | refl => exact absurd rfl hne
  | relex mode _ ih =>
    rw [relex_start]
    exact ih hne heof
  | @take b tokens before ih =>
    obtain ⟨chars, hc⟩ := (before.tiled ha).passes
    have hk : b.current.kind ≠ .eof := heof b.current (by simp)
    exact Nat.lt_of_le_of_lt hc.offset_le ((before.placed ha).offset_lt hk)

/-- A skipped element is not empty. -/
theorem Reading.offset_lt_skipped {state : ParseState} (h : state.Grounded)
    (hk : state.kind ≠ .eof) (dropped : Reading) :
    state.lexer.start.offset < (skipped state dropped).lexer.start.offset := by
  obtain ⟨tokens, last, hs, hne⟩ := ParseState.skips_skipElement state.lexer 0 true state.rounds
  rw [skipped_eq state dropped hs]
  exact hs.reads.offset_lt h.placed (hne rfl (Nat.succ_pos _) hk) hs.ne_eof

def Rulebook.Holds {Rule : Type} (book : Rulebook Rule) (budget : Nat)
    (drawRule : Rule → ParseState → Reading) : Prop :=
  ∀ rule care contract, contract ∈ book.contracts rule care →
    Follows budget (drawRule rule) care (book.rank rule + 1) contract.entry contract.exits

namespace Phrase

open Sight Reading ParseState

variable {Rule : Type} {book : Rulebook Rule} {budget : Nat}
  {drawRule : Rule → ParseState → Reading}

/-- Taking the lookahead. -/
theorem covers_taken {sight : Sight} {origin bound : Nat} {state : ParseState} {care : Care}
    (h : sight.Stands origin bound budget state) (field : Option Field)
    (hk : care.isTidy = true → state.kind ≠ .unknown) (exits : Exits)
    (he : ∀ state, Finds sight.take origin state → Finds exits.done origin state) :
    exits.Covers care origin state (taken state field) := by
  refine ⟨misused_taken state field, by simp, fun ht => tidy_taken field (hk ht), ?_⟩
  rw [verdict_taken]
  exact he _ (h.sees.take h.grounded.placed h.origin_le field)

/-- Reading nothing. -/
theorem covers_nothing {sight : Sight} {origin bound : Nat} {state : ParseState} {care : Care}
    (h : sight.Stands origin bound budget state) {reading : Reading}
    (hl : reading.lexer = state.lexer) (hs : reading.shapes = []) (hm : reading.misused = false)
    (hv : reading.verdict ≠ .chose .tombstone) {exits : Exits}
    (he : Finds (some sight) origin state → Finds (exits.behind reading.verdict) origin state) :
    exits.Covers care origin state reading := by
  refine ⟨hm, hv, fun _ => by rw [hs]; exact Shape.tidy_nil, ?_⟩
  rw [hl]
  exact he ⟨sight, rfl, h.sees⟩

theorem narrow_kind {sight : Sight} {origin : Nat} {state : ParseState} {kind : Kind}
    (h : sight.Sees origin state) (hk : state.kind = kind) :
    Finds (sight.narrow 0 (·.inter (.single kind))) origin state := by
  refine h.narrow fun set hs => ?_
  rw [KindSet.contains_inter, hs, KindSet.contains_single, Bool.true_and, beq_iff_eq]
  exact hk.symm

theorem narrow_other {sight : Sight} {origin : Nat} {state : ParseState} {kind : Kind}
    (h : sight.Sees origin state) (hk : state.kind ≠ kind) :
    Finds (sight.narrow 0 (·.without (.single kind))) origin state := by
  refine h.narrow fun set hs => ?_
  rw [KindSet.contains_without, hs, KindSet.contains_single, Bool.true_and, Bool.not_eq_true',
    beq_eq_false_iff_ne]
  exact Ne.symm hk

theorem Stands.rounds {sight : Sight} {origin bound : Nat} {state : ParseState}
    (h : sight.Stands origin bound budget state) :
    state.size < state.lexer.start.offset + state.rounds := by
  have hle := h.grounded.offset_le
  simp only [ParseState.rounds]
  omega

def ScanHolds (book : Rulebook Rule) (budget : Nat) (drawRule : Rule → ParseState → Reading)
    (phrase : Phrase Rule) : Prop :=
  ∀ {care : Care} {bound : Nat} {sight : Sight} {exits : Exits},
    phrase.scan book care bound sight = some exits →
    Follows budget (phrase.draw drawRule) care bound sight exits

namespace ScanHolds

attribute [local simp] scan

/-- A token that is there is taken; otherwise that is a failure, which care may rule out. -/
theorem expect (kind : Kind) (field : Option Field) :
    ScanHolds book budget drawRule (.expect kind field) := by
  intro care bound sight exits h origin state hs ha
  simp only [scan] at h
  split at h
  · cases h
  · next hk =>
    obtain rfl := Option.some.inj h
    simp only [draw] at ha ⊢
    split at ha
    · next he =>
      rw [if_pos he]
      obtain ⟨known, hknown, hsees⟩ := narrow_kind hs.sees he
      refine covers_taken (hs.with_sight hsees) field ?_ _ fun _ => ?_
      · rintro ht hu
        exact hk (by rw [ht, ← he, hu]; rfl)
      · rw [hknown]
        exact id
    · next he =>
      rw [if_neg he]
      refine covers_nothing hs rfl rfl rfl (by simp [failing, stay]) fun _ => ?_
      have hc : care.isClean = false :=
        Bool.eq_false_iff.mpr fun hc => Nat.one_ne_zero (ha hc)
      simp only [failing, stay, Exits.behind, hc]
      exact narrow_other hs.sees he

/-- A closing delimiter that is missing is reported and no failure, so the phrase always fits. -/
theorem close (kind : Kind) :
    ScanHolds book budget drawRule (.close kind) := by
  intro care bound sight exits h origin state hs _
  simp only [scan] at h
  split at h
  · cases h
  · next hk =>
    obtain rfl := Option.some.inj h
    simp only [draw]
    split
    · next he =>
      obtain ⟨known, hknown, hsees⟩ := narrow_kind hs.sees he
      refine covers_taken (hs.with_sight hsees) none ?_ _ fun _ hf => ?_
      · rintro ht hu
        exact hk (by rw [ht, ← he, hu]; rfl)
      · rw [hknown]
        exact Finds.join_left hf _
    · next he =>
      refine covers_nothing hs rfl rfl rfl (by simp [stay]) fun _ => ?_
      exact Finds.join_right (narrow_other hs.sees he) _

/-- A steady sight stays right from round to round, up to where the test or the body ends the loop.
-/
theorem loop (hacc : ∀ rule, Accounts (drawRule rule)) (test : Test) {body : Phrase Rule}
    (ih : ScanHolds book budget drawRule body) :
    ScanHolds book budget drawRule (.loop test body) := by
  intro care bound sight exits h origin state hs ha
  obtain ⟨head, hhead, hrest⟩ := Option.bind_eq_some_iff.mp h
  obtain ⟨last, hlast, hreturn⟩ := Option.bind_eq_some_iff.mp hrest
  obtain rfl := Option.some.inj hreturn
  obtain ⟨hknows, hsteady⟩ := steady?_spec hhead
  have hstands := hs.still.with_sight (hs.still.sees.weaken hknows)
  obtain ⟨hkeeps, htidy, hverdict, hends⟩ :=
    covers_rounds (fun _ _ h => ih h) (Accounts.phrase hacc body)
    hsteady state.rounds hstands (Stands.rounds hs) ha
  refine ⟨hkeeps, by rw [draw, hverdict]; simp, htidy, ?_⟩
  rw [draw, hverdict]
  rcases hends with hstops | ⟨last', known, hlast', hfailed, hsees⟩
  · exact (hstops.finds_ended hs).join_left _
  · obtain rfl := Option.some.inj (hlast'.symm.trans hlast)
    refine Finds.join_right ⟨_, by rw [hfailed]; rfl, ?_⟩ _
    refine ⟨hsees.behind, hsees.here, hsees.next, hsees.after, hsees.room, hsees.label,
      fun hm => ?_⟩
    rcases Bool.or_eq_true_iff.mp hm with hm | hm
    · exact Nat.lt_of_lt_of_le (hs.sees.moved hm)
        ((Accounts.phrase hacc (.loop test body) state).offset_le hs.grounded.placed)
    · exact Nat.lt_of_le_of_lt hs.origin_le (hsees.moved hm)

/-- A node fails exactly where its phrase settles no kind. -/
theorem node {body : Phrase Rule} (ih : ScanHolds book budget drawRule body) :
    ScanHolds book budget drawRule (.node body) := by
  intro care bound sight exits h origin state hs ha
  obtain ⟨exits', hbody, hreturn⟩ := Option.bind_eq_some_iff.mp h
  obtain rfl := Option.some.inj hreturn
  have hc := ih hbody origin state hs (fun hc => by rw [← failures_close]; exact ha hc)
  have hf := hc.finds
  by_cases hv : ∃ kind, (body.draw drawRule state).verdict = .chose kind
  · obtain ⟨kind, hv⟩ := hv
    have hne : kind ≠ .tombstone := fun he => hc.named (he ▸ hv)
    rw [draw, close_of_chose hv]
    refine ⟨by simp [hc.keeps, hne], by simp, fun ht => Shape.tidy_node (hc.tidy ht), ?_⟩
    rw [hv] at hf
    exact hf
  · have hv' : ∀ kind, (body.draw drawRule state).verdict ≠ .chose kind :=
      fun kind he => hv ⟨kind, he⟩
    rw [draw, close_of_not_chose hv']
    refine ⟨hc.keeps, by simp, hc.tidy, ?_⟩
    cases hr : (body.draw drawRule state).verdict <;> rw [hr] at hf
    · exact hf.join_left _
    · exact (hf.join_left _).join_right _
    · exact absurd hr (hv' _)
    · exact (hf.join_right _).join_right _

/-- If the head is a node, a steady sight stays right from link to link; otherwise there is none. -/
theorem chain (hacc : ∀ rule, Accounts (drawRule rule)) {head : Phrase Rule} (test : Test)
    (field : Kind → Field) {body : Phrase Rule} (ih : ScanHolds book budget drawRule head)
    (ih' : ScanHolds book budget drawRule body) :
    ScanHolds book budget drawRule (.chain head test field body) := by
  intro care bound sight exits h origin state hs ha
  obtain ⟨exits', hhead, hrest⟩ := Option.bind_eq_some_iff.mp h
  simp only [draw] at ha ⊢
  split at ha
  · next hv =>
    rw [if_pos hv]
    have hc := ih hhead origin state hs fun hc => Nat.le_zero.mp
      (Nat.le_trans (failures_le_drawChain _ _ _ _ _ _) (Nat.le_of_eq (ha hc)))
    have hf := hc.finds
    rw [hv] at hf
    obtain ⟨known, hknown, hsees⟩ := hf
    simp only [Exits.behind] at hknown
    simp only [hknown] at hrest
    obtain ⟨steady, hsteady, hreturn⟩ := Option.bind_eq_some_iff.mp hrest
    obtain rfl := Option.some.inj hreturn
    obtain ⟨hknows, hsteady⟩ := steady?_spec hsteady
    have hmoved := hs.moveTo (Accounts.phrase hacc head state) hsees
    have hstands := hmoved.still.with_sight (hmoved.still.sees.weaken hknows)
    obtain ⟨hkeeps, htidy, hverdict, hstops⟩ := covers_chain (fun _ _ h => ih' h)
      (Accounts.phrase hacc body) hsteady _ hstands hv hc.keeps hc.tidy (Stands.rounds hmoved) ha
    refine ⟨hkeeps, by rw [hverdict]; simp, htidy, ?_⟩
    rw [hverdict]
    -- behind the last round the test fails, or the text has ended
    have hended := hstops.finds_ended hmoved
    exact hended
  · next hv =>
    rw [if_neg hv]
    have hc := ih hhead origin state hs ha
    -- without a node at the head there is no round, whatever the scan has found out about the
    -- rounds
    have hfailed : ∀ node : Option Sight,
        Exits.Covers { Exits.nowhere with
          failed := Sight.join exits'.failed (Sight.join exits'.done exits'.chose), node }
          care origin state { head.draw drawRule state with verdict := .failed } := by
      intro node
      refine ⟨hc.keeps, by simp, hc.tidy, ?_⟩
      have hf := hc.finds
      cases hr : (head.draw drawRule state).verdict <;> rw [hr] at hf
      · exact hf.join_left _
      · exact (hf.join_left _).join_right _
      · exact (hf.join_right _).join_right _
      · exact absurd hr hv
    split at hrest
    · obtain rfl := Option.some.inj hrest
      exact hfailed none
    · obtain ⟨steady, hsteady, hreturn⟩ := Option.bind_eq_some_iff.mp hrest
      obtain rfl := Option.some.inj hreturn
      exact hfailed _

/-- What was scanned of the body counts for the first phrase only where the body is clean; the
second one starts over. -/
theorem attempt (hacc : ∀ rule, Accounts (drawRule rule)) {body : Phrase Rule} {yes : Phrase Rule}
    {no : Phrase Rule} (ih : ScanHolds book budget drawRule body)
    (ih' : ScanHolds book budget drawRule yes) (ih'' : ScanHolds book budget drawRule no) :
    ScanHolds book budget drawRule (.attempt body yes no) := by
  intro care bound sight exits h origin state hs ha
  obtain ⟨_, hbody, hrest⟩ := Option.bind_eq_some_iff.mp h
  obtain ⟨tried, htried, hrest⟩ := Option.bind_eq_some_iff.mp hrest
  obtain ⟨first, hyes, hrest⟩ := Option.bind_eq_some_iff.mp hrest
  obtain ⟨second, hno, hreturn⟩ := Option.bind_eq_some_iff.mp hrest
  obtain rfl := Option.some.inj hreturn
  have hb := ih hbody origin state hs Bool.noConfusion
  simp only [draw] at ha ⊢
  split at ha
  · next hc =>
    rw [if_pos hc]
    simp only [Reading.isClean, Bool.and_eq_true, bne_iff_ne, beq_iff_eq] at hc
    have ht := ih htried origin state hs fun _ => hc.2
    obtain ⟨known, hknown, hsees⟩ := (Exits.finds_fits ht.finds hc.1).of_followed hyes
    exact ((ht.with_care care).andThen (ih' hknown origin _
      (hs.moveTo (Accounts.phrase hacc body state) hsees) ha.andThen.2)).join_left _
  · next hc =>
    rw [if_neg hc]
    have hn := ih'' hno origin state hs ha
    exact (hn.instead hb.keeps).join_right _

/-- An element that left no failure has moved on, and one that is skipped is not empty. -/
theorem recover {element : Phrase Rule} (ih : ScanHolds book budget drawRule element) :
    ScanHolds book budget drawRule (.recover element) := by
  intro care bound sight exits h origin state hs _
  obtain ⟨_, hany, hrest⟩ := Option.bind_eq_some_iff.mp h
  obtain ⟨clean, hclean, hreturn⟩ := Option.bind_eq_some_iff.mp hrest
  split at hreturn
  · next hcond =>
    obtain rfl := Option.some.inj hreturn
    simp only [Bool.and_eq_true, Bool.not_eq_true'] at hcond
    have ha := ih hany origin state hs Bool.noConfusion
    have hvague (lexer : Lexer) (hlt : state.lexer.start.offset < lexer.start.offset) :
        (vague sight.room).onward.Sees origin (state.moveTo lexer) := by
      have hroom : (vague sight.room).Sees origin (state.moveTo lexer) :=
        vague_sees hs.sees.room
      exact hroom.onward (Nat.lt_of_le_of_lt hs.origin_le hlt)
    simp only [draw]
    split
    · next hf =>
      have hc := ih hclean _ _ hs.still fun _ => hf
      refine ⟨hc.keeps, by simp, fun _ => hc.tidy rfl, _, rfl, ?_⟩
      obtain ⟨known, hknown, hsees⟩ := Exits.finds_all hc.finds
      rw [hknown] at hcond
      exact hvague _ (hsees.moved hcond.1)
    · have hk : state.kind ≠ .eof := fun he => by
        have := hs.sees.here
        rw [he, hcond.2] at this
        cases this
      exact ⟨ha.keeps, by simp [skipped], fun _ => tidy_skipped state _, _, rfl,
        hvague _ (offset_lt_skipped hs.grounded hk _)⟩
  · cases hreturn

/-- At the limit of nesting there is a failure; below it, the body is followed one level deeper. -/
theorem nested {body : Phrase Rule} (ih : ScanHolds book budget drawRule body) :
    ScanHolds book budget drawRule (.nested body) := by
  intro care bound sight exits h origin state hs ha
  simp only [draw] at ha ⊢
  by_cases hl : state.limit ≤ state.depth
  · rw [if_pos hl] at ha ⊢
    have hclean : care.isClean = false :=
      Bool.eq_false_iff.mpr fun hc => Nat.one_ne_zero (ha hc)
    have hdepth : decide (state.depth < state.limit) = false := by
      simpa using hl
    have hroom : sight.room ≠ some true := fun hr => by
      rw [hs.sees.room true hr] at hdepth
      cases hdepth
    have hblocked : Exits.Covers
        { Exits.nowhere with failed := some { sight with room := some false } } care origin state
        (failing state state.depthComplaint) := by
      refine ⟨rfl, by simp [failing, stay], fun _ => Shape.tidy_nil, _, rfl, ?_⟩
      refine ⟨hs.sees.behind, hs.sees.here, hs.sees.next, hs.sees.after, ?_, hs.sees.label,
        hs.sees.moved⟩
      intro known hk
      obtain rfl := Option.some.inj hk
      exact hdepth
    -- a failure was admitted, and room was not seen, so the scan has not left this case out
    have hcond : (care.isClean || sight.room == some true) = false := by
      simp [hclean, hroom]
    simp [hcond] at h
    split at h
    · obtain rfl := Option.some.inj h
      exact hblocked
    · obtain ⟨exits', _, hreturn⟩ := Option.bind_eq_some_iff.mp h
      obtain rfl := Option.some.inj hreturn
      exact hblocked.join_right _
  · rw [if_neg hl] at ha ⊢
    have hdepth : decide (state.depth < state.limit) = true := by
      simpa using hl
    have hroom : sight.room ≠ some false := fun hr => by
      rw [hs.sees.room false hr] at hdepth
      cases hdepth
    simp [hroom] at h
    obtain ⟨exits', hbody, hreturn⟩ := Option.bind_eq_some_iff.mp h
    obtain rfl := Option.some.inj hreturn
    -- one level less is left, so the whole budget of a level may be spent on the body
    have haffords : Affords { state with depth := state.depth + 1 } 8 budget := by
      have := hs.affords
      simp only [Affords] at this ⊢
      omega
    have hstands : Stands { sight with room := none } origin 8 budget
        { state with depth := state.depth + 1 } :=
      ⟨⟨hs.sees.behind, hs.sees.here, hs.sees.next, hs.sees.after, by simp, hs.sees.label,
        hs.sees.moved⟩,
        hs.grounded, hs.origin_le, haffords⟩
    have hc := ih hbody origin _ hstands ha
    refine Exits.Covers.join_left (hc.map fun known hsees => ?_) _
    refine ⟨hsees.behind, hsees.here, hsees.next, hsees.after, ?_, hsees.label, hsees.moved⟩
    intro known hk
    obtain rfl := Option.some.inj hk
    exact hdepth

/-- A rule keeps its contract, if the sight knows all that the contract takes. -/
theorem call (hacc : ∀ rule, Accounts (drawRule rule)) (hbook : book.Holds budget drawRule)
    (rule : Rule) :
    ScanHolds book budget drawRule (.call rule) := by
  intro care bound sight exits h origin state hs ha
  simp only [scan] at h
  split at h
  · next hrank =>
    obtain ⟨contract, hfind, hmap⟩ := Option.map_eq_some_iff.mp h
    subst hmap
    have hknows := List.find?_some hfind
    have haffords : state.Affords (book.rank rule + 1) budget := by
      have := hs.affords
      simp only [Affords] at this ⊢
      omega
    have hc := hbook rule care contract (List.mem_of_find?_eq_some hfind) origin state
      ⟨hs.sees.weaken hknows, hs.grounded, hs.origin_le, haffords⟩ ha
    refine hc.map fun known hsees => ?_
    refine ⟨hsees.behind, hsees.here, hsees.next, hsees.after, hs.sees.room, hsees.label,
      fun hm => ?_⟩
    rcases Bool.or_eq_true_iff.mp hm with hm | hm
    · exact Nat.lt_of_lt_of_le (hs.sees.moved hm)
        ((hacc rule state).offset_le hs.grounded.placed)
    · exact hsees.moved hm
  · cases h

end ScanHolds

/-- What a scan of a phrase gives holds of its readings. -/
theorem follows_scan (hacc : ∀ rule, Accounts (drawRule rule)) (hbook : book.Holds budget drawRule)
    (phrase : Phrase Rule) {care : Care} {bound : Nat} {sight : Sight} {exits : Exits}
    (h : phrase.scan book care bound sight = some exits) :
    Follows budget (phrase.draw drawRule) care bound sight exits := by
  have haccounts (phrase : Phrase Rule) : Accounts (phrase.draw drawRule) :=
    Accounts.phrase hacc phrase
  induction phrase generalizing care bound sight exits with
  | done =>
    intro origin state hs _
    obtain rfl := Option.some.inj h
    exact ⟨rfl, by simp [draw, stay], fun _ => Shape.tidy_nil, sight, rfl, hs.sees⟩
  | reject =>
    intro origin state hs _
    obtain rfl := Option.some.inj h
    exact ⟨rfl, by simp [draw, stay], fun _ => Shape.tidy_nil, sight, rfl, hs.sees⟩
  | take field =>
    intro origin state hs _
    simp only [scan] at h
    split at h
    · cases h
    · next hk =>
      obtain rfl := Option.some.inj h
      refine covers_taken hs field ?_ _ fun _ => id
      intro ht hu
      have hsee := hs.sees.here
      rw [hu] at hsee
      exact hk (by rw [ht, hsee]; rfl)
  | expect kind field => exact ScanHolds.expect kind field h
  | close kind => exact ScanHolds.close kind h
  | missing what =>
    intro origin state hs ha
    obtain rfl := Option.some.inj h
    -- a clean reading has no failure, so this one is not asked for
    have hc : care.isClean = false := Bool.eq_false_iff.mpr fun hc => Nat.one_ne_zero (ha hc)
    refine covers_nothing hs rfl rfl rfl (by simp [draw, failing, stay]) fun hf => ?_
    simp only [draw, failing, stay, Exits.behind, hc]
    exact hf
  | refuse message =>
    intro origin state hs ha
    obtain rfl := Option.some.inj h
    have hc : care.isClean = false := Bool.eq_false_iff.mpr fun hc => Nat.one_ne_zero (ha hc)
    refine covers_nothing hs rfl rfl rfl (by simp [draw, failing, stay]) fun hf => ?_
    simp only [draw, failing, stay, Exits.behind, hc]
    exact hf
  | demand kind =>
    intro origin state hs _
    simp only [scan] at h
    split at h
    · next hk =>
      obtain rfl := Option.some.inj h
      -- what is seen of the lookahead has to settle the demand
      have he := KindSet.contains_of_isSubset hk hs.sees.here
      rw [KindSet.contains_single, beq_iff_eq] at he
      refine covers_nothing hs rfl rfl ?_ (by simp [draw, stay]) id
      simp [draw, he]
    · cases h
  | relex mode =>
    intro origin state hs _
    obtain rfl := Option.some.inj h
    refine ⟨rfl, by simp [draw, stay], fun _ => Shape.tidy_nil, _, rfl, ?_⟩
    -- in another mode anything may be there, but as far on as before
    have hv : (vague sight.room).Sees origin (state.moveTo (state.lexer.relex mode)) :=
      vague_sees fun known hr => hs.sees.room known hr
    refine ⟨hv.behind, hv.here, hv.next, hv.after, hv.room, hv.label, fun hm => ?_⟩
    show origin < (state.lexer.relex mode).start.offset
    rw [Lexer.relex_start]
    exact hs.sees.moved hm
  | seq first second ih ih' =>
    intro origin state hs ha
    obtain ⟨exits', hfirst, hsecond⟩ := Option.bind_eq_some_iff.mp h
    have hc := ih hfirst origin state hs ha.andThen.1
    -- the second phrase follows in any case, so all exits of the first one count
    obtain ⟨known, hknown, hsees⟩ := (Exits.finds_all hc.finds).of_followed hsecond
    exact hc.andThen (ih' hknown origin _ (hs.moveTo (haccounts first state) hsees) ha.andThen.2)
  | both first second ih ih' =>
    intro origin state hs ha
    obtain ⟨exits', hfirst, hrest⟩ := Option.bind_eq_some_iff.mp h
    obtain ⟨rest, hsecond, hreturn⟩ := Option.bind_eq_some_iff.mp hrest
    obtain rfl := Option.some.inj hreturn
    simp only [draw] at ha ⊢
    split at ha
    · next hv =>
      rw [if_pos hv]
      have hc := ih hfirst origin state hs ha
      refine Exits.Covers.join_right ⟨hc.keeps, hc.named, hc.tidy, ?_⟩ _
      have hf := hc.finds
      rw [hv] at hf ⊢
      exact hf
    · next hv =>
      rw [if_neg hv]
      have hc := ih hfirst origin state hs ha.andThen.1
      -- here only the exits with a reading that fits count
      obtain ⟨known, hknown, hsees⟩ := (Exits.finds_fits hc.finds hv).of_followed hsecond
      exact (hc.andThen (ih' hknown origin _ (hs.moveTo (haccounts first state) hsees)
        ha.andThen.2)).join_left _
  | branch test yes no ih ih' =>
    intro origin state hs ha
    obtain ⟨first, hyes, hrest⟩ := Option.bind_eq_some_iff.mp h
    obtain ⟨second, hno, hreturn⟩ := Option.bind_eq_some_iff.mp hrest
    obtain rfl := Option.some.inj hreturn
    have hassume := hs.sees.assume test
    simp only [draw] at ha ⊢
    split at ha
    · next ht =>
      rw [if_pos ht]
      rw [ht] at hassume
      obtain ⟨known, hknown, hsees⟩ := hassume.of_followed hyes
      exact (ih hknown origin state (hs.with_sight hsees) ha).join_left _
    · next ht =>
      rw [if_neg ht]
      rw [Bool.eq_false_iff.mpr ht] at hassume
      obtain ⟨known, hknown, hsees⟩ := hassume.of_followed hno
      exact (ih' hknown origin state (hs.with_sight hsees) ha).join_right _
  | loop test body ih => exact ScanHolds.loop hacc test ih h
  | choose kind =>
    intro origin state hs _
    simp only [scan] at h
    split at h
    · cases h
    · next hk =>
      obtain rfl := Option.some.inj h
      exact covers_nothing hs rfl rfl rfl (by simpa [draw, stay] using hk) id
  | node body ih => exact ScanHolds.node ih h
  | slot field body ih =>
    intro origin state hs ha
    have hc := ih h origin state hs (fun hc => by simpa [draw, failures_fill] using ha hc)
    refine ⟨?_, by simpa [draw] using hc.named, fun ht => tidy_fill _ (hc.tidy ht), ?_⟩
    · rw [draw, misused_fill]
      exact hc.keeps
    · simpa [draw] using hc.finds
  | chain head test field body ih ih' => exact ScanHolds.chain hacc test field ih ih' h
  | look probe yes no ih ih' ih'' =>
    intro origin state hs ha
    obtain ⟨_, hprobe, hrest⟩ := Option.bind_eq_some_iff.mp h
    obtain ⟨first, hyes, hrest⟩ := Option.bind_eq_some_iff.mp hrest
    obtain ⟨second, hno, hreturn⟩ := Option.bind_eq_some_iff.mp hrest
    obtain rfl := Option.some.inj hreturn
    -- a probe may fail, so it is scanned with less care
    have hp := ih hprobe origin state hs Bool.noConfusion
    simp only [draw] at ha ⊢
    split at ha
    · next hc =>
      rw [if_pos hc]
      have hy := ih' hyes origin state hs ha
      exact (hy.instead hp.keeps).join_left _
    · next hc =>
      rw [if_neg hc]
      have hn := ih'' hno origin state hs ha
      exact (hn.instead hp.keeps).join_right _
  | attempt body yes no ih ih' ih'' => exact ScanHolds.attempt hacc ih ih' ih'' h
  | blame shape reading ih ih' =>
    intro origin state hs _
    obtain ⟨_, hshape, hrest⟩ := Option.bind_eq_some_iff.mp h
    obtain ⟨_, hreading, hreturn⟩ := Option.bind_eq_some_iff.mp hrest
    obtain rfl := Option.some.inj hreturn
    have hs' := ih hshape origin state hs Bool.noConfusion
    have hr := ih' hreading origin state hs Bool.noConfusion
    refine covers_nothing hs rfl rfl ?_ (by simp [draw, stay]) id
    simp [draw, hs'.keeps, hr.keeps]
  | recover element ih => exact ScanHolds.recover ih h
  | absorb body ih =>
    intro origin state hs ha
    have hc := ih h origin state hs (by
      intro hc
      cases care <;> simp [Care.isClean] at hc)
    refine ⟨hc.keeps, hc.named, fun ht => hc.tidy ?_, hc.finds⟩
    cases care <;> simp_all [Care.isClean, Care.isTidy]
  | nested body ih => exact ScanHolds.nested ih h
  | call rule => exact ScanHolds.call hacc hbook rule h

end Phrase

end ScriptTree

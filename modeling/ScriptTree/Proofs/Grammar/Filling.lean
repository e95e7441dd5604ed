import ScriptTree.Proofs.Grammar.Sound
import ScriptTree.Proofs.Parser.Pattern

/-!
Fillings: whether a phrase leaves nothing, a single node or more than that. A phrase is followed
with sights in place of states as in a scan, which tells where a token is sure to be taken. On the
way every node is checked against a condition on its kind and its filling, so that the condition
holds of every node that is kept, also where failures were reported.
-/

namespace ScriptTree

/-- How much stands side by side: nothing, a single node of one of the kinds, or anything else. -/
inductive Filling where
  | nothing
  | lone (kinds : KindSet)
  | plenty
  deriving DecidableEq, Repr, Inhabited

namespace Filling

def Holds : Filling → List Shape → Prop
  | .nothing, shapes => shapes = []
  | .lone kinds, shapes => ∃ kind field children, shapes = [.node kind field children] ∧
    kinds.contains kind = true
  | .plenty, shapes => shapes ≠ [] ∧ ∀ kind field children, shapes ≠ [.node kind field children]

def append : Filling → Filling → Filling
  | .nothing, other => other
  | filling, .nothing => filling
  | _, _ => .plenty

def within : Filling → Filling → Bool
  | .lone kinds, .lone more => kinds.isSubset more
  | filling, other => filling == other

variable {filling other : Filling} {front back shapes : List Shape}

theorem Holds.ne_nil (h : filling.Holds shapes) (hne : filling ≠ .nothing) : shapes ≠ [] := by
  cases filling with
  | nothing => exact absurd rfl hne
  | lone kinds =>
    obtain ⟨kind, field, children, rfl, -⟩ := h
    exact List.cons_ne_nil _ _
  | plenty => exact h.1

/-- Two shapes or more are more than a single node. -/
theorem holds_plenty_append (hfront : front ≠ []) (hback : back ≠ []) :
    Filling.plenty.Holds (front ++ back) := by
  refine ⟨List.append_ne_nil_of_left_ne_nil hfront back, fun kind field children heq => ?_⟩
  have hlength := congrArg List.length heq
  have hsome := List.length_pos_of_ne_nil hfront
  have hmore := List.length_pos_of_ne_nil hback
  rw [List.length_append, List.length_singleton] at hlength
  omega

/-- What fills two stretches of children side by side fills them together. -/
theorem Holds.append (h : filling.Holds front) (h' : other.Holds back) :
    (filling.append other).Holds (front ++ back) := by
  by_cases hfilling : filling = .nothing
  · subst hfilling
    obtain rfl : front = [] := h
    exact h'
  by_cases hother : other = .nothing
  · subst hother
    obtain rfl : back = [] := h'
    rw [List.append_nil]
    cases filling with
    | nothing => exact absurd rfl hfilling
    | lone kinds => exact h
    | plenty => exact h
  have hplenty : filling.append other = .plenty := by
    cases filling <;> cases other <;> first | rfl | contradiction
  rw [hplenty]
  exact holds_plenty_append (h.ne_nil hfilling) (h'.ne_nil hother)

theorem append_eq (filling other : Filling) :
    filling.append other = filling ∨ filling.append other = other ∨
      filling.append other = .plenty := by
  cases filling <;> cases other <;> simp [append]

theorem Holds.weaken (h : filling.Holds shapes) (hw : filling.within other = true) :
    other.Holds shapes := by
  unfold within at hw
  split at hw
  · obtain ⟨kind, field, children, rfl, hkind⟩ := h
    exact ⟨kind, field, children, rfl, KindSet.contains_of_isSubset hw hkind⟩
  · exact beq_iff_eq.mp hw ▸ h

/-- When the last node is put into a slot, only what was known of nodes without a slot changes. -/
theorem Holds.fillLast (h : filling.Holds shapes) (field : Field) :
    filling.Holds (Shape.fillLast field shapes) := by
  cases filling with
  | nothing =>
    obtain rfl : shapes = [] := h
    rfl
  | lone kinds =>
    obtain ⟨kind, old, children, rfl, hkind⟩ := h
    exact ⟨kind, some field, children, rfl, hkind⟩
  | plenty =>
    obtain ⟨hne, hmore⟩ := h
    obtain ⟨front, last, rfl⟩ := (List.eq_nil_or_concat shapes).resolve_left hne
    rw [List.concat_eq_append] at hmore ⊢
    rw [Shape.fillLast_append_singleton]
    refine ⟨by simp, fun kind slot children heq => ?_⟩
    obtain ⟨rfl, hlast⟩ := List.append_eq_singleton_iff.mp heq |>.resolve_right (by simp)
    cases last with
    | leaf token old => simp [Shape.withField] at hlast
    | node inner old below => exact hmore inner old below rfl

end Filling

structure Course where
  verdict : Verdict
  filling : Filling
  deriving DecidableEq, Repr, Inhabited

namespace Course

/-- The reading goes this way. -/
structure Describes (course : Course) (reading : Reading) : Prop where
  verdict : course.verdict = reading.verdict
  filling : course.filling.Holds reading.shapes

/-- The ways to take a token of one of the kinds, unless the text is at its end. -/
def taking (here : KindSet) : List Course :=
  ⟨.done, .plenty⟩ :: if here.contains .eof then [⟨.done, .nothing⟩] else []

def andThen (first second : Course) : Course :=
  ⟨second.verdict, first.filling.append second.filling⟩

def joined (front back : List Course) : List Course :=
  (front.flatMap fun first => back.map first.andThen).eraseDups

def fitting (courses : List Course) : List Course :=
  courses.filter (·.verdict != .failed)

def settle (verdict : Verdict) (course : Course) : Course :=
  ⟨verdict, course.filling⟩

def close (course : Course) : Course :=
  match course.verdict with
  | .chose kind => ⟨.node, .lone (.single kind)⟩
  | _ => course.settle .failed

def base? (course : Course) : Option (List KindSet) :=
  match course.verdict, course.filling with
  | .node, .lone kinds => some [kinds]
  | .node, _ => none
  | _, _ => some []

def chosen (course : Course) : KindSet :=
  match course.verdict with
  | .chose kind => .single kind
  | _ => .empty

def isSeated (seats : Kind → Filling → Bool) (front : Filling) (course : Course) : Bool :=
  match course.verdict with
  | .chose kind => seats kind (front.append course.filling)
  | _ => true

def within (course other : Course) : Bool :=
  course.verdict == other.verdict && course.filling.within other.filling

variable {course : Course} {reading : Reading}

theorem Describes.andThen {first second : Course} {before after : Reading}
    (h : first.Describes before) (h' : second.Describes after) :
    (first.andThen second).Describes (before.andThen after) :=
  ⟨h'.verdict, h.filling.append h'.filling⟩

theorem mem_joined {front back : List Course} {first second : Course} (h : first ∈ front)
    (h' : second ∈ back) : first.andThen second ∈ joined front back := by
  rw [joined, List.mem_eraseDups]
  exact List.mem_flatMap.mpr ⟨first, h, List.mem_map_of_mem h'⟩

theorem Describes.mem_fitting {courses : List Course} (h : course.Describes reading)
    (hmem : course ∈ courses) (hv : reading.verdict ≠ .failed) : course ∈ fitting courses := by
  refine List.mem_filter.mpr ⟨hmem, ?_⟩
  rw [bne_iff_ne, h.verdict]
  exact hv

theorem Describes.close (h : course.Describes reading) : course.close.Describes reading.close := by
  unfold Course.close
  cases hv : course.verdict with
  | chose kind =>
    rw [Reading.close_of_chose (h.verdict.symm.trans hv)]
    exact ⟨rfl, kind, none, reading.shapes, rfl, by simp⟩
  | _ =>
    have hverdict := h.verdict.symm.trans hv
    simp only [Reading.close, hverdict]
    exact ⟨rfl, h.filling⟩

theorem Describes.fill (h : course.Describes reading) (field : Field) :
    course.Describes (reading.fill field) := by
  unfold Reading.fill
  split
  · exact ⟨h.verdict, h.filling.fillLast field⟩
  · exact h

theorem Describes.base {bases : List KindSet} (h : course.Describes reading)
    (hbase : course.base? = some bases) (hnode : reading.verdict = .node) :
    ∃ kinds ∈ bases, (Filling.lone kinds).Holds reading.shapes := by
  unfold base? at hbase
  split at hbase
  · next kinds _ hf =>
    obtain rfl := Option.some.inj hbase
    exact ⟨kinds, List.mem_singleton_self _, hf ▸ h.filling⟩
  · cases hbase
  · next hne _ => exact absurd (h.verdict.trans hnode) hne

/-- Of the kinds that the heads make, a head that makes a node makes one. -/
theorem Describes.lone_of_heads {heads : List Course} {bases : List KindSet}
    (h : course.Describes reading) (hbases : gather base? heads = some bases)
    (hcourse : course ∈ heads) (hnode : reading.verdict = .node) (more : List KindSet) :
    (Filling.lone (KindSet.unionAll (bases ++ more))).Holds reading.shapes := by
  obtain ⟨own, hown, hsub⟩ := exists_of_gather hbases hcourse
  obtain ⟨kinds, hkinds, kind, field, children, hshapes, hkind⟩ := h.base hown hnode
  exact ⟨kind, field, children, hshapes,
    KindSet.contains_unionAll (List.mem_append_left _ (hsub hkinds)) hkind⟩

theorem contains_chosen {rounds : List Course} (bases : List KindSet) (hcourse : course ∈ rounds)
    {kind : Kind} (hkind : course.verdict = .chose kind) :
    (KindSet.unionAll (bases ++ rounds.map chosen)).contains kind = true := by
  refine KindSet.contains_unionAll (List.mem_append_right _ (List.mem_map_of_mem hcourse)) ?_
  simp [chosen, hkind]

theorem Describes.weaken {other : Course} (h : course.Describes reading)
    (hw : course.within other = true) : other.Describes reading := by
  rw [within, Bool.and_eq_true, beq_iff_eq] at hw
  exact ⟨hw.1.symm.trans h.verdict, h.filling.weaken hw.2⟩

end Course

structure Promise where
  entry : Sight
  courses : List Course
  deriving DecidableEq, Repr, Inhabited

structure Chart (Rule : Type) where
  book : Rulebook Rule
  promises : Rule → Care → List Promise
  seats : Kind → Filling → Bool

def Sight.pursued (sight : Option Sight) (more : Sight → Option (List Course)) :
    Option (List Course) :=
  match sight with
  | none => some []
  | some sight => more sight

namespace Phrase

open Sight

variable {Rule : Type}

/-- The courses of a phrase from a sight on, unless one of its nodes may break the condition. As in
a scan, readings with failures are left out if care says so. -/
def courses (chart : Chart Rule) : Phrase Rule → Care → Nat → Sight → Option (List Course)
  | .done, _, _, _ | .demand _, _, _, _ | .relex _, _, _, _ | .blame _ _, _, _, _ =>
    some [⟨.done, .nothing⟩]
  | .reject, _, _, _ => some [⟨.failed, .nothing⟩]
  | .choose kind, _, _, _ => some [⟨.chose kind, .nothing⟩]
  | .take _, _, _, sight => some (Course.taking sight.here)
  | .expect kind _, care, _, sight =>
    some (Course.taking (.single kind) ++
      if care.isClean || sight.here.isSubset (.single kind) then [] else [⟨.failed, .nothing⟩])
  | .close _, _, _, _ => some [⟨.done, .nothing⟩, ⟨.done, .plenty⟩]
  | .missing _, care, _, _ | .refuse _, care, _, _ =>
    some (if care.isClean then [] else [⟨.failed, .nothing⟩])
  | .seq first second, care, bound, sight => do
    let exits ← first.scan chart.book care bound sight
    let front ← first.courses chart care bound sight
    let back ← pursued exits.all (second.courses chart care bound)
    return Course.joined front back
  | .both first second, care, bound, sight => do
    let exits ← first.scan chart.book care bound sight
    let front ← first.courses chart care bound sight
    let back ← pursued exits.fits (second.courses chart care bound)
    return front.filter (·.verdict == .failed) ++ Course.joined (Course.fitting front) back
  | .branch test yes no, care, bound, sight => do
    let first ← pursued (sight.assume test true) (yes.courses chart care bound)
    let second ← pursued (sight.assume test false) (no.courses chart care bound)
    return first ++ second
  | .loop test body, care, bound, sight => do
    let head ← steady? (round test (body.scan chart.book care bound) Exits.again) sight.still
    let rounds ← pursued ((head.assume test true).map still) (body.courses chart care bound)
    -- several rounds leave as much as one of them or more than a single node
    return (if (sight.assume test false).isSome then [⟨.done, .nothing⟩] else []) ++
      ⟨.done, .plenty⟩ :: rounds.map (Course.settle .done)
  | .node body, care, bound, sight => do
    let inside ← body.courses chart care bound sight
    if inside.all (Course.isSeated chart.seats .nothing) then some (inside.map Course.close)
    else none
  | .slot _ body, care, bound, sight => body.courses chart care bound sight
  | .chain head test _ body, care, bound, sight => do
    let exits ← head.scan chart.book care bound sight
    let heads ← head.courses chart care bound sight
    let bases ← gather Course.base? heads
    let failed := (heads.filter (·.verdict != .node)).map (Course.settle .failed)
    match exits.node with
    | none => return failed
    | some sight =>
      let steady ← steady? (round test (body.scan chart.book care bound) Exits.settled) sight.still
      let rounds ← pursued ((steady.assume test true).map still) (body.courses chart care bound)
      let kinds := KindSet.unionAll (bases ++ rounds.map Course.chosen)
      if rounds.all (Course.isSeated chart.seats (.lone kinds)) then
        return ⟨.node, .lone kinds⟩ :: failed
      else none
  | .look _ yes no, care, bound, sight => do
    let first ← yes.courses chart care bound sight
    let second ← no.courses chart care bound sight
    return first ++ second
  | .attempt body yes no, care, bound, sight => do
    let tried ← body.scan chart.book .clean bound sight
    let front ← body.courses chart .clean bound sight
    let back ← pursued tried.fits (yes.courses chart care bound)
    let second ← no.courses chart care bound sight
    return Course.joined (Course.fitting front) back ++ second
  | .recover element, _, bound, sight => do
    let clean ← element.courses chart .clean bound sight
    if !sight.here.contains .eof && chart.seats .error .plenty then
      return ⟨.done, .lone (.single .error)⟩ :: clean.map (Course.settle .done)
    else none
  | .absorb body, care, bound, sight =>
    body.courses chart (if care.isClean then .strict else care) bound sight
  | .nested body, care, _, sight =>
    let blocked := if care.isClean then [] else [⟨.failed, .nothing⟩]
    if sight.room = some false then some blocked
    else (body.courses chart care 8 { sight with room := none }).map (· ++ blocked)
  | .call rule, care, bound, sight =>
    if chart.book.rank rule < bound then
      ((chart.promises rule care).find? fun promise => sight.knows promise.entry).map
        Promise.courses
    else none

end Phrase

structure Charted (holds : Kind → List Shape → Prop) (courses : List Course) (reading : Reading) :
    Prop where
  meets : Shape.AllOf holds reading.shapes
  described : ∃ course ∈ courses, course.Describes reading

def Charts (holds : Kind → List Shape → Prop) (budget : Nat) (draw : ParseState → Reading)
    (care : Care) (bound : Nat) (sight : Sight) (courses : List Course) : Prop :=
  ∀ origin state, sight.Stands origin bound budget state → care.Admits (draw state) →
    Charted holds courses (draw state)

def Chart.Enforces {Rule : Type} (chart : Chart Rule) (holds : Kind → List Shape → Prop) : Prop :=
  ∀ kind filling children, chart.seats kind filling = true → filling.Holds children →
    holds kind children

def Chart.Holds {Rule : Type} (chart : Chart Rule) (holds : Kind → List Shape → Prop)
    (budget : Nat) (drawRule : Rule → ParseState → Reading) : Prop :=
  ∀ rule care promise, promise ∈ chart.promises rule care →
    Charts holds budget (drawRule rule) care (chart.book.rank rule + 1) promise.entry
      promise.courses

namespace Charted

variable {holds : Kind → List Shape → Prop} {courses results : List Course}
  {reading first second : Reading}

theorem mono (h : Charted holds courses reading) (hsub : courses ⊆ results) :
    Charted holds results reading := by
  obtain ⟨hmeets, course, hcourse, hdescribes⟩ := h
  exact ⟨hmeets, course, hsub hcourse, hdescribes⟩

theorem instead (h : Charted holds courses reading) (dropped : Reading) :
    Charted holds courses (reading.instead dropped) := by
  obtain ⟨hmeets, course, hcourse, hdescribes⟩ := h
  exact ⟨hmeets, course, hcourse, hdescribes.verdict, hdescribes.filling⟩

/-- However the reading comes out, it leaves the same. -/
theorem settle (h : Charted holds courses reading) (verdict : Verdict) :
    Charted holds (courses.map (Course.settle verdict)) { reading with verdict } := by
  obtain ⟨hmeets, course, hcourse, hdescribes⟩ := h
  exact ⟨hmeets, _, List.mem_map_of_mem hcourse, rfl, hdescribes.filling⟩

theorem fitting (h : Charted holds courses reading) (hv : reading.verdict ≠ .failed) :
    Charted holds (Course.fitting courses) reading := by
  obtain ⟨hmeets, course, hcourse, hdescribes⟩ := h
  exact ⟨hmeets, course, hdescribes.mem_fitting hcourse hv, hdescribes⟩

theorem andThen (h : Charted holds courses first) (h' : Charted holds results second) :
    Charted holds (Course.joined courses results) (first.andThen second) := by
  obtain ⟨hmeets, course, hcourse, hdescribes⟩ := h
  obtain ⟨hmeets', course', hcourse', hdescribes'⟩ := h'
  exact ⟨Shape.allOf_append.mpr ⟨hmeets, hmeets'⟩, _, Course.mem_joined hcourse hcourse',
    hdescribes.andThen hdescribes'⟩

/-- Nothing is left. -/
theorem nothing (verdict : Verdict) (hv : reading.verdict = verdict) (hs : reading.shapes = [])
    (hmem : ⟨verdict, .nothing⟩ ∈ courses) : Charted holds courses reading :=
  ⟨by rw [hs]; exact trivial, _, hmem, hv.symm, hs⟩

/-- Where the lookahead has one of the kinds, it is taken. -/
theorem taken {state : ParseState} {here : KindSet} (h : here.contains state.kind = true)
    (field : Option Field) : Charted holds (Course.taking here) (Reading.taken state field) := by
  unfold Reading.taken
  split
  · next hk =>
    rw [hk] at h
    exact nothing .done rfl rfl (by simp [Course.taking, h])
  · exact ⟨⟨trivial, trivial⟩, ⟨.done, .plenty⟩, List.mem_cons_self, rfl, by simp, by simp⟩

end Charted

namespace Phrase

open Sight Reading ParseState

variable {Rule : Type} {chart : Chart Rule} {holds : Kind → List Shape → Prop} {budget : Nat}
  {drawRule : Rule → ParseState → Reading}

theorem exists_pursued {found : Option Sight} {more : Sight → Option (List Course)}
    {courses : List Course} {origin : Nat} {state : ParseState} (h : Finds found origin state)
    (hp : pursued found more = some courses) :
    ∃ known, more known = some courses ∧ known.Sees origin state := by
  obtain ⟨known, rfl, hs⟩ := h
  exact ⟨known, hp, hs⟩

def IsCharted (chart : Chart Rule) (holds : Kind → List Shape → Prop) (budget : Nat)
    (drawRule : Rule → ParseState → Reading) (phrase : Phrase Rule) : Prop :=
  ∀ ⦃care : Care⦄ ⦃bound : Nat⦄ ⦃sight : Sight⦄ ⦃courses : List Course⦄,
    phrase.courses chart care bound sight = some courses →
    Charts holds budget (phrase.draw drawRule) care bound sight courses

/-- What a repetition leaves: nothing, if there is no round, or as much as one of its rounds, or
more than a single node. -/
theorem charted_rounds {test : Test} {scan : Sight → Option Exits} {step : ParseState → Reading}
    {care : Care} {head : Sight} {bound : Nat} {rounds : List Course}
    (hscan : ∀ sight exits, scan sight = some exits → Follows budget step care bound sight exits)
    (hacc : Accounts step) (hs : isSteady (round test scan Exits.again) head = true)
    (hround : ∀ start, head.assume test true = some start →
      Charts holds budget step care bound start.still rounds)
    (limit : Nat) {state : ParseState}
    (h : head.Stands state.lexer.start.offset bound budget state)
    (ha : care.Admits (drawLoop (fun state => test.holds state) step state limit)) :
    (drawLoop (fun state => test.holds state) step state limit).verdict = .done ∧
    Shape.AllOf holds (drawLoop (fun state => test.holds state) step state limit).shapes ∧
    ((drawLoop (fun state => test.holds state) step state limit).shapes = [] ∧
        (limit = 0 ∨ test.holds state = false) ∨
      ∃ filling ∈ Filling.plenty :: rounds.map Course.filling,
        filling.Holds (drawLoop (fun state => test.holds state) step state limit).shapes) := by
  -- every round starts at a steady sight, so the courses of the body hold of each of them
  induction limit generalizing state with
  | zero => exact ⟨rfl, trivial, Or.inl ⟨rfl, Or.inl rfl⟩⟩
  | succ limit ih =>
    simp only [drawLoop] at ha ⊢
    by_cases ht : test.holds state = true
    · rw [if_pos ht] at ha ⊢
      obtain ⟨start, exits, found, hassume, hexits, hends, hstart, hfound⟩ := h.round hs ht
      by_cases hv : (step state).verdict = .failed
      · -- a failure ends the loop, but what it has left is kept
        rw [if_pos hv] at ha ⊢
        obtain ⟨hmeets, course, hcourse, hdescribes⟩ := hround start hassume _ _ hstart ha
        exact ⟨rfl, hmeets, Or.inr ⟨course.filling,
          List.mem_cons_of_mem _ (List.mem_map_of_mem hcourse), hdescribes.filling⟩⟩
      · rw [if_neg hv] at ha ⊢
        obtain ⟨hfirst, hrest⟩ := ha.andThen
        obtain ⟨hmeets, course, hcourse, hdescribes⟩ := hround start hassume _ _ hstart hfirst
        have hc := hscan _ _ hexits _ _ hstart hfirst
        obtain rfl := Option.some.inj hends
        obtain ⟨-, hnext⟩ := h.again (hacc state) hfound (Exits.finds_fits hc.finds hv)
        obtain ⟨hverdict, hmeets', hleft⟩ := ih hnext hrest
        refine ⟨hverdict, Shape.allOf_append.mpr ⟨hmeets, hmeets'⟩, Or.inr ?_⟩
        have hin : course.filling ∈ Filling.plenty :: rounds.map Course.filling :=
          List.mem_cons_of_mem _ (List.mem_map_of_mem hcourse)
        rcases hleft with ⟨hnil, -⟩ | ⟨filling, hfilling, hholds⟩
        · refine ⟨course.filling, hin, ?_⟩
          rw [Reading.andThen, hnil, List.append_nil]
          exact hdescribes.filling
        · refine ⟨course.filling.append filling, ?_, hdescribes.filling.append hholds⟩
          rcases Filling.append_eq course.filling filling with he | he | he <;> rw [he]
          · exact hin
          · exact hfilling
          · exact List.mem_cons_self
    · rw [if_neg ht]
      exact ⟨rfl, trivial, Or.inl ⟨rfl, Or.inr (Bool.eq_false_iff.mpr ht)⟩⟩

/-- A node around a single node and a body is seated as the body says. -/
theorem charted_link {kinds : KindSet} {reading body : Reading} {rounds : List Course} {kind : Kind}
    (hseats : chart.Enforces holds)
    (hall : rounds.all (Course.isSeated chart.seats (.lone kinds)) = true)
    (hsub : ∀ course ∈ rounds, ∀ {kind}, course.verdict = .chose kind → kinds.contains kind = true)
    (hv : reading.verdict = .node) (hmeets : Shape.AllOf holds reading.shapes)
    (hlone : (Filling.lone kinds).Holds reading.shapes) (hbody : Charted holds rounds body)
    (hkind : body.verdict = .chose kind) (slot : Field) :
    ((reading.fill slot).wrap body).verdict = .node ∧
    Shape.AllOf holds ((reading.fill slot).wrap body).shapes ∧
    (Filling.lone kinds).Holds ((reading.fill slot).wrap body).shapes := by
  obtain ⟨hbelow, course, hcourse, hdescribes⟩ := hbody
  have hsettled : course.verdict = .chose kind := hdescribes.verdict.trans hkind
  have hseated := List.all_eq_true.mp hall course hcourse
  simp only [Course.isSeated, hsettled] at hseated
  have hfilled := hlone.fillLast slot
  have hnode := hseats _ _ _ hseated (hfilled.append hdescribes.filling)
  obtain ⟨inner, old, children, hshapes, -⟩ := hlone
  rw [wrap_of_chose hkind, fill_of_node hv]
  rw [hshapes] at hmeets hnode ⊢
  refine ⟨rfl, ⟨⟨hnode, Shape.allOf_append.mpr ⟨?_, hbelow⟩⟩, trivial⟩, kind, none, _, rfl,
    hsub course hcourse hsettled⟩
  exact ⟨⟨hmeets.1.1, hmeets.1.2⟩, trivial⟩

/-- Nodes that are made around a single node are seated as the rounds say. -/
theorem charted_chain {test : Test} {field : Kind → Field} {scan : Sight → Option Exits}
    {step : ParseState → Reading} {care : Care} {head : Sight} {bound : Nat} {rounds : List Course}
    {kinds : KindSet} (hseats : chart.Enforces holds)
    (hall : rounds.all (Course.isSeated chart.seats (.lone kinds)) = true)
    (hsub : ∀ course ∈ rounds, ∀ {kind}, course.verdict = .chose kind → kinds.contains kind = true)
    (hscan : ∀ sight exits, scan sight = some exits → Follows budget step care bound sight exits)
    (hacc : Accounts step) (hs : isSteady (round test scan Exits.settled) head = true)
    (hround : ∀ start, head.assume test true = some start →
      Charts holds budget step care bound start.still rounds)
    (limit : Nat) {state : ParseState} {reading : Reading}
    (h : head.Stands reading.lexer.start.offset bound budget (state.moveTo reading.lexer))
    (hv : reading.verdict = .node) (hmeets : Shape.AllOf holds reading.shapes)
    (hlone : (Filling.lone kinds).Holds reading.shapes)
    (ha : care.Admits (drawChain (fun state => test.holds state) field step state reading limit)) :
    Charted holds [⟨.node, .lone kinds⟩]
      (drawChain (fun state => test.holds state) field step state reading limit) := by
  have hcharted {last : Reading} (hv : last.verdict = .node)
      (hmeets : Shape.AllOf holds last.shapes) (hlone : (Filling.lone kinds).Holds last.shapes) :
      Charted holds [⟨.node, .lone kinds⟩] last :=
    ⟨hmeets, _, List.mem_singleton_self _, hv.symm, hlone⟩
  -- up to each round there is a single node of one of the kinds
  induction limit generalizing state reading with
  | zero => exact hcharted hv hmeets hlone
  | succ limit ih =>
    by_cases ht : test.holds (state.moveTo reading.lexer) = true
    · have hadmits := ha.of_drawChain ht
      simp only [drawChain] at ha ⊢
      rw [if_pos ht] at ha ⊢
      obtain ⟨start, exits, found, hassume, hexits, hends, hstart, hfound⟩ := h.round hs ht
      have hacc' := hacc (state.moveTo reading.lexer)
      have hcovers := hscan _ _ hexits _ _ hstart hadmits
      have hbody := hround start hassume _ _ hstart hadmits
      -- the body is known by what it covers and by its courses only
      generalize step (state.moveTo reading.lexer) = body at ha hacc' hcovers hbody ⊢
      obtain ⟨⟨kind, hkind⟩, hfinds⟩ := settled_finds hends hcovers.finds
      obtain ⟨-, hnext⟩ := h.again hacc' hfound hfinds
      obtain ⟨hv', hmeets', hlone'⟩ := charted_link hseats hall hsub hv hmeets hlone hbody hkind
        (field (state.moveTo reading.lexer).kind)
      split at ha
      · next hm =>
        rw [if_pos hm]
        exact hcharted hv' hmeets' hlone'
      · next hm =>
        rw [if_neg hm]
        refine ih ?_ hv' hmeets' hlone' ha
        rw [wrap_lexer]
        exact hnext
    · simp only [drawChain]
      rw [if_neg ht]
      exact hcharted hv hmeets hlone

namespace IsCharted

section

variable {first second : Phrase Rule}

/-- A token that is asked for fills its slot where the phrase fits. -/
theorem expect (kind : Kind) (field : Option Field) :
    IsCharted chart holds budget drawRule (.expect kind field) := by
  intro care bound sight courses h origin state hs ha
  obtain rfl := Option.some.inj h
  simp only [draw] at ha ⊢
  split at ha
  · next hk =>
    rw [if_pos hk]
    exact (Charted.taken (by simp [hk]) field).mono (List.subset_append_left _ _)
  · next hk =>
    rw [if_neg hk]
    have hclean : care.isClean = false := Bool.eq_false_iff.mpr fun hc => Nat.one_ne_zero (ha hc)
    have hsubset : sight.here.isSubset (.single kind) = false := by
      refine Bool.eq_false_iff.mpr fun hsubset => hk ?_
      have hsingle := KindSet.contains_of_isSubset hsubset hs.sees.here
      rw [KindSet.contains_single, beq_iff_eq] at hsingle
      exact hsingle.symm
    exact .nothing .failed rfl rfl
      (List.mem_append_right _ (by simp [hclean, hsubset]))

theorem close (kind : Kind) : IsCharted chart holds budget drawRule (.close kind) := by
  intro care bound sight courses h origin state hs _
  obtain rfl := Option.some.inj h
  simp only [draw]
  split
  · next hk =>
    have hsingle : (KindSet.single kind).contains state.kind = true := by simp [hk]
    refine (Charted.taken hsingle none).mono ?_
    unfold Course.taking
    split <;> simp
  · exact .nothing .done rfl rfl (by simp)

/-- The courses of a body hold of each round that the test lets in. -/
theorem charts_round {body : Phrase Rule} (h : IsCharted chart holds budget drawRule body)
    {head : Sight} {test : Test} {care : Care} {bound : Nat} {rounds : List Course}
    (hrounds : pursued ((head.assume test true).map still) (body.courses chart care bound) =
      some rounds) (start : Sight) (hassume : head.assume test true = some start) :
    Charts holds budget (body.draw drawRule) care bound start.still rounds := by
  rw [hassume] at hrounds
  exact h hrounds

theorem stay {phrase : Phrase Rule} {verdict : Verdict}
    (hdraw : ∀ state, (phrase.draw drawRule state).verdict = verdict ∧
      (phrase.draw drawRule state).shapes = [])
    (hcourses : ∀ care bound sight, phrase.courses chart care bound sight =
      some [⟨verdict, .nothing⟩]) : IsCharted chart holds budget drawRule phrase := by
  intro care bound sight courses h origin state _ _
  rw [hcourses] at h
  obtain rfl := Option.some.inj h
  exact .nothing verdict (hdraw state).1 (hdraw state).2 (List.mem_singleton_self _)

/-- A phrase that only complains has no course without failure. -/
theorem complain {phrase : Phrase Rule} {complaint : ParseState → Diagnostic}
    (hdraw : ∀ state, phrase.draw drawRule state = failing state (complaint state))
    (hcourses : ∀ care bound sight, phrase.courses chart care bound sight =
      some (if care.isClean then [] else [⟨.failed, .nothing⟩])) :
    IsCharted chart holds budget drawRule phrase := by
  intro care bound sight courses h origin state _ ha
  rw [hcourses] at h
  obtain rfl := Option.some.inj h
  rw [hdraw] at ha ⊢
  have hclean : care.isClean = false := Bool.eq_false_iff.mpr fun hc => Nat.one_ne_zero (ha hc)
  exact .nothing .failed rfl rfl
    (by simp [hclean])

variable (hacc : ∀ rule, Accounts (drawRule rule)) (hbook : chart.book.Holds budget drawRule)

include hacc hbook

/-- The courses of the second phrase start where those of the first one have led. -/
theorem seq (hf : IsCharted chart holds budget drawRule first)
    (hs : IsCharted chart holds budget drawRule second) :
    IsCharted chart holds budget drawRule (.seq first second) := by
  intro care bound sight courses h origin state hstands ha
  obtain ⟨exits, hexits, hrest⟩ := Option.bind_eq_some_iff.mp h
  obtain ⟨front, hfront, hrest⟩ := Option.bind_eq_some_iff.mp hrest
  obtain ⟨back, hback, hreturn⟩ := Option.bind_eq_some_iff.mp hrest
  obtain rfl := Option.some.inj hreturn
  obtain ⟨ha, ha'⟩ := ha.andThen
  have hc := follows_scan hacc hbook first hexits origin state hstands ha
  obtain ⟨known, hknown, hsees⟩ := exists_pursued (Exits.finds_all hc.finds) hback
  exact (hf hfront origin state hstands ha).andThen (hs hknown origin _
    (hstands.moveTo (Accounts.phrase hacc first state) hsees) ha')

/-- Where the first phrase fails, its own courses are those of the whole. -/
theorem both (hf : IsCharted chart holds budget drawRule first)
    (hs : IsCharted chart holds budget drawRule second) :
    IsCharted chart holds budget drawRule (.both first second) := by
  intro care bound sight courses h origin state hstands ha
  obtain ⟨exits, hexits, hrest⟩ := Option.bind_eq_some_iff.mp h
  obtain ⟨front, hfront, hrest⟩ := Option.bind_eq_some_iff.mp hrest
  obtain ⟨back, hback, hreturn⟩ := Option.bind_eq_some_iff.mp hrest
  obtain rfl := Option.some.inj hreturn
  simp only [draw] at ha ⊢
  split at ha
  · next hv =>
    rw [if_pos hv]
    obtain ⟨hmeets, course, hcourse, hdescribes⟩ := hf hfront origin state hstands ha
    have hfailed : course ∈ front.filter (·.verdict == .failed) :=
      List.mem_filter.mpr ⟨hcourse, beq_iff_eq.mpr (hdescribes.verdict.trans hv)⟩
    exact ⟨hmeets, course, List.mem_append_left _ hfailed, hdescribes⟩
  · next hv =>
    rw [if_neg hv]
    obtain ⟨ha, ha'⟩ := ha.andThen
    have hc := follows_scan hacc hbook first hexits origin state hstands ha
    obtain ⟨known, hknown, hsees⟩ := exists_pursued (Exits.finds_fits hc.finds hv) hback
    have hjoined := ((hf hfront origin state hstands ha).fitting hv).andThen (hs hknown origin _
      (hstands.moveTo (Accounts.phrase hacc first state) hsees) ha')
    exact hjoined.mono (List.subset_append_right _ _)

/-- Where there is no round the test fails at once, and any number of rounds is charted as one
round. -/
theorem loop {body : Phrase Rule} (test : Test) (hb : IsCharted chart holds budget drawRule body) :
    IsCharted chart holds budget drawRule (.loop test body) := by
  intro care bound sight courses h origin state hstands ha
  obtain ⟨head, hhead, hrest⟩ := Option.bind_eq_some_iff.mp h
  obtain ⟨rounds, hrounds, hreturn⟩ := Option.bind_eq_some_iff.mp hrest
  obtain rfl := Option.some.inj hreturn
  obtain ⟨hknows, hsteady⟩ := steady?_spec hhead
  obtain ⟨hverdict, hmeets, hleft⟩ := charted_rounds
    (fun _ _ hscan => follows_scan hacc hbook body hscan) (Accounts.phrase hacc body) hsteady
    (hb.charts_round hrounds) state.rounds
    (hstands.still.with_sight (hstands.still.sees.weaken hknows)) ha
  refine ⟨hmeets, ?_⟩
  rcases hleft with ⟨hnil, hstop⟩ | ⟨filling, hfilling, hholds⟩
  · -- without a round the test fails at once
    have hfalse := hstop.resolve_left (Nat.succ_ne_zero _)
    obtain ⟨known, hknown, -⟩ := hstands.sees.assume test
    rw [hfalse] at hknown
    exact ⟨⟨.done, .nothing⟩, List.mem_append_left _ (by simp [hknown]), hverdict.symm, hnil⟩
  · refine ⟨⟨.done, filling⟩, List.mem_append_right _ ?_, hverdict.symm, hholds⟩
    rcases List.mem_cons.mp hfilling with rfl | hfilling
    · exact List.mem_cons_self
    · obtain ⟨course, hcourse, rfl⟩ := List.mem_map.mp hfilling
      exact List.mem_cons_of_mem _ (List.mem_map_of_mem hcourse)

/-- A body that is taken back fills nothing, and what follows a body that was kept starts from a
clean reading. -/
theorem attempt {body : Phrase Rule} (hb : IsCharted chart holds budget drawRule body)
    (hf : IsCharted chart holds budget drawRule first)
    (hs : IsCharted chart holds budget drawRule second) :
    IsCharted chart holds budget drawRule (.attempt body first second) := by
  intro care bound sight courses h origin state hstands ha
  obtain ⟨tried, htried, hrest⟩ := Option.bind_eq_some_iff.mp h
  obtain ⟨front, hfront, hrest⟩ := Option.bind_eq_some_iff.mp hrest
  obtain ⟨back, hback, hrest⟩ := Option.bind_eq_some_iff.mp hrest
  obtain ⟨other, hother, hreturn⟩ := Option.bind_eq_some_iff.mp hrest
  obtain rfl := Option.some.inj hreturn
  simp only [draw] at ha ⊢
  split at ha
  · next hclean =>
    rw [if_pos hclean]
    -- what is kept of the trial has no failure, so its clean courses are enough
    simp only [Reading.isClean, Bool.and_eq_true, bne_iff_ne, beq_iff_eq] at hclean
    obtain ⟨hv, hzero⟩ := hclean
    have hc := follows_scan hacc hbook body htried origin state hstands fun _ => hzero
    obtain ⟨known, hknown, hsees⟩ := exists_pursued (Exits.finds_fits hc.finds hv) hback
    have hjoined := ((hb hfront origin state hstands fun _ => hzero).fitting hv).andThen
      (hf hknown origin _ (hstands.moveTo (Accounts.phrase hacc body state) hsees) ha.andThen.2)
    exact hjoined.mono (List.subset_append_left _ _)
  · next hclean =>
    rw [if_neg hclean]
    exact ((hs hother origin state hstands ha).instead _).mono (List.subset_append_right _ _)

/-- Each round makes a node around the one before, and that node must meet the chart. -/
theorem chain {head body : Phrase Rule} (hseats : chart.Enforces holds)
    (hh : IsCharted chart holds budget drawRule head)
    (hb : IsCharted chart holds budget drawRule body) (test : Test) (field : Kind → Field) :
    IsCharted chart holds budget drawRule (.chain head test field body) := by
  intro care bound sight courses h origin state hstands ha
  obtain ⟨exits, hexits, hrest⟩ := Option.bind_eq_some_iff.mp h
  obtain ⟨heads, hheads, hrest⟩ := Option.bind_eq_some_iff.mp hrest
  obtain ⟨bases, hbases, hrest⟩ := Option.bind_eq_some_iff.mp hrest
  dsimp only at hrest
  simp only [draw] at ha ⊢
  split at ha
  · next hv =>
    rw [if_pos hv]
    -- a chain without failure has a head without failure
    have hadmits : care.Admits (head.draw drawRule state) := fun hc => Nat.le_zero.mp
      (Nat.le_trans (failures_le_drawChain _ _ _ _ _ _) (Nat.le_of_eq (ha hc)))
    have hc := follows_scan hacc hbook head hexits origin state hstands hadmits
    obtain ⟨hmeets, course, hcourse, hdescribes⟩ := hh hheads origin state hstands hadmits
    have hfinds := hc.finds
    rw [hv] at hfinds
    obtain ⟨known, hknown, hsees⟩ := hfinds
    simp only [Exits.behind] at hknown
    simp only [hknown] at hrest
    obtain ⟨steady, hsteady, hrest⟩ := Option.bind_eq_some_iff.mp hrest
    obtain ⟨rounds, hrounds, hrest⟩ := Option.bind_eq_some_iff.mp hrest
    split at hrest
    · next hall =>
      obtain rfl := Option.some.inj hrest
      obtain ⟨hknows, hsteady⟩ := steady?_spec hsteady
      have hmoved := hstands.moveTo (Accounts.phrase hacc head state) hsees
      have hlone := hdescribes.lone_of_heads hbases hcourse hv (rounds.map Course.chosen)
      have hcharted := charted_chain hseats hall (fun _ => Course.contains_chosen bases)
        (fun _ _ hscan => follows_scan hacc hbook body hscan) (Accounts.phrase hacc body) hsteady
        (hb.charts_round hrounds) _ (hmoved.still.with_sight (hmoved.still.sees.weaken hknows)) hv
        hmeets hlone ha
      exact hcharted.mono (by simp)
    · cases hrest
  · next hv =>
    rw [if_neg hv]
    obtain ⟨hmeets, course, hcourse, hdescribes⟩ := hh hheads origin state hstands ha
    have hother : course ∈ heads.filter (·.verdict != .node) := by
      refine List.mem_filter.mpr ⟨hcourse, ?_⟩
      rw [bne_iff_ne, hdescribes.verdict]
      exact hv
    have hcharted := Charted.settle ⟨hmeets, course, hother, hdescribes⟩ .failed
    -- without a node at the head there is no round, whatever is known of the rounds
    split at hrest
    · obtain rfl := Option.some.inj hrest
      exact hcharted
    · obtain ⟨steady, -, hrest⟩ := Option.bind_eq_some_iff.mp hrest
      obtain ⟨rounds, -, hrest⟩ := Option.bind_eq_some_iff.mp hrest
      split at hrest
      · obtain rfl := Option.some.inj hrest
        exact hcharted.mono (List.subset_cons_self _ _)
      · cases hrest

end

/-- The answer of the test is known in either branch. -/
theorem branch {first second : Phrase Rule} (test : Test)
    (hf : IsCharted chart holds budget drawRule first)
    (hs : IsCharted chart holds budget drawRule second) :
    IsCharted chart holds budget drawRule (.branch test first second) := by
  intro care bound sight courses h origin state hstands ha
  obtain ⟨front, hfront, hrest⟩ := Option.bind_eq_some_iff.mp h
  obtain ⟨back, hback, hreturn⟩ := Option.bind_eq_some_iff.mp hrest
  obtain rfl := Option.some.inj hreturn
  have hassume := hstands.sees.assume test
  simp only [draw] at ha ⊢
  split at ha
  · next ht =>
    rw [if_pos ht]
    rw [ht] at hassume
    obtain ⟨known, hknown, hsees⟩ := exists_pursued hassume hfront
    exact (hf hknown origin state (hstands.with_sight hsees) ha).mono (List.subset_append_left _ _)
  · next ht =>
    rw [if_neg ht]
    rw [Bool.eq_false_iff.mpr ht] at hassume
    obtain ⟨known, hknown, hsees⟩ := exists_pursued hassume hback
    exact (hs hknown origin state (hstands.with_sight hsees) ha).mono (List.subset_append_right _ _)

/-- The probe leaves nothing, so only the two phrases count. -/
theorem look {probe first second : Phrase Rule} (hf : IsCharted chart holds budget drawRule first)
    (hs : IsCharted chart holds budget drawRule second) :
    IsCharted chart holds budget drawRule (.look probe first second) := by
  intro care bound sight courses h origin state hstands ha
  obtain ⟨front, hfront, hrest⟩ := Option.bind_eq_some_iff.mp h
  obtain ⟨back, hback, hreturn⟩ := Option.bind_eq_some_iff.mp hrest
  obtain rfl := Option.some.inj hreturn
  simp only [draw] at ha ⊢
  split at ha
  · next hc =>
    rw [if_pos hc]
    exact ((hf hfront origin state hstands ha).instead _).mono (List.subset_append_left _ _)
  · next hc =>
    rw [if_neg hc]
    exact ((hs hback origin state hstands ha).instead _).mono (List.subset_append_right _ _)

/-- A node whose children are filled as the chart demands may stand by itself from then on. -/
theorem node {body : Phrase Rule} (hseats : chart.Enforces holds)
    (hb : IsCharted chart holds budget drawRule body) :
    IsCharted chart holds budget drawRule (.node body) := by
  intro care bound sight courses h origin state hstands ha
  obtain ⟨inside, hinside, hrest⟩ := Option.bind_eq_some_iff.mp h
  split at hrest
  · next hall =>
    obtain rfl := Option.some.inj hrest
    obtain ⟨hmeets, course, hcourse, hdescribes⟩ := hb hinside origin state hstands
      (fun hc => by rw [← failures_close]; exact ha hc)
    refine ⟨?_, _, List.mem_map_of_mem hcourse, hdescribes.close⟩
    rw [draw]
    by_cases hv : ∃ kind, (body.draw drawRule state).verdict = .chose kind
    · obtain ⟨kind, hv⟩ := hv
      have hseated := List.all_eq_true.mp hall course hcourse
      simp only [Course.isSeated, hdescribes.verdict.trans hv] at hseated
      rw [close_of_chose hv]
      exact ⟨⟨hseats _ _ _ hseated hdescribes.filling, hmeets⟩, trivial⟩
    · rw [close_of_not_chose fun kind he => hv ⟨kind, he⟩]
      exact hmeets
  · cases hrest

theorem slot {body : Phrase Rule} (field : Kind → Field)
    (hb : IsCharted chart holds budget drawRule body) :
    IsCharted chart holds budget drawRule (.slot field body) := by
  intro care bound sight courses h origin state hstands ha
  obtain ⟨hmeets, course, hcourse, hdescribes⟩ := hb h origin state hstands
    (fun hc => by simpa [draw, failures_fill] using ha hc)
  refine ⟨?_, course, hcourse, hdescribes.fill _⟩
  simp only [draw, Reading.fill]
  split
  · exact (Shape.allOf_fillLast _ _).mpr hmeets
  · exact hmeets

/-- What is kept of an element has no failure, and what is skipped is not empty. -/
theorem recover {element : Phrase Rule} (hseats : chart.Enforces holds)
    (he : IsCharted chart holds budget drawRule element) :
    IsCharted chart holds budget drawRule (.recover element) := by
  intro care bound sight courses h origin state hstands _
  obtain ⟨clean, hclean, hrest⟩ := Option.bind_eq_some_iff.mp h
  split at hrest
  · next hcond =>
    obtain rfl := Option.some.inj hrest
    rw [Bool.and_eq_true, Bool.not_eq_true'] at hcond
    simp only [draw]
    split
    · next hzero =>
      have hkept := he hclean origin state hstands fun _ => hzero
      exact (hkept.settle .done).mono (List.subset_cons_self _ _)
    · obtain ⟨tokens, last, hskips, hne⟩ := skips_skipElement state.lexer 0 true state.rounds
      rw [skipped_eq state _ hskips]
      have hk : state.lexer.current.kind ≠ .eof := fun heof => by
        have hhere := hstands.sees.here
        rw [ParseState.kind, ParseState.current, heof, hcond.1] at hhere
        cases hhere
      have hplenty : Filling.plenty.Holds
          (tokens.map fun token => Shape.leaf token.cleared none) := by
        obtain ⟨first, rest, rfl⟩ :=
          List.exists_cons_of_ne_nil (hne rfl (Nat.succ_pos _) hk)
        exact ⟨by simp, by simp⟩
      refine ⟨⟨⟨hseats _ _ _ hcond.2 hplenty, Shape.allOf_leaves _ _ _⟩, trivial⟩, _,
        List.mem_cons_self, rfl, .error, none, _, rfl, by simp⟩
  · cases hrest

/-- At the limit of nesting nothing is read; below it the body is read with less room. -/
theorem nested {body : Phrase Rule} (hb : IsCharted chart holds budget drawRule body) :
    IsCharted chart holds budget drawRule (.nested body) := by
  intro care bound sight courses h origin state hstands ha
  simp only [Phrase.courses] at h
  simp only [draw] at ha ⊢
  by_cases hl : state.limit ≤ state.depth
  · -- at the limit the phrase is refused, which is a failure
    rw [if_pos hl] at ha ⊢
    have hclean : care.isClean = false := Bool.eq_false_iff.mpr fun hc => Nat.one_ne_zero (ha hc)
    refine .nothing .failed rfl rfl ?_
    split at h
    · obtain rfl := Option.some.inj h
      simp [hclean]
    · obtain ⟨inside, -, rfl⟩ := Option.map_eq_some_iff.mp h
      simp [hclean]
  · rw [if_neg hl] at ha ⊢
    have hroom : sight.room ≠ some false := fun hr => by
      have hdepth := hstands.sees.room false hr
      rw [decide_eq_false_iff_not] at hdepth
      exact hdepth (Nat.not_le.mp hl)
    rw [if_neg hroom] at h
    obtain ⟨inside, hinside, rfl⟩ := Option.map_eq_some_iff.mp h
    have haffords : Affords { state with depth := state.depth + 1 } 8 budget := by
      have := hstands.affords
      simp only [Affords] at this ⊢
      omega
    have hdeeper : Stands { sight with room := none } origin 8 budget
        { state with depth := state.depth + 1 } :=
      ⟨⟨hstands.sees.behind, hstands.sees.here, hstands.sees.next, hstands.sees.after, by simp,
        hstands.sees.label,
        hstands.sees.moved⟩, hstands.grounded, hstands.origin_le, haffords⟩
    exact (hb hinside origin _ hdeeper ha).mono (List.subset_append_left _ _)

/-- The courses of a rule are those that were promised of it. -/
theorem call (hpromises : chart.Holds holds budget drawRule) (rule : Rule) :
    IsCharted chart holds budget drawRule (.call rule) := by
  intro care bound sight courses h origin state hstands ha
  simp only [Phrase.courses] at h
  split at h
  · next hrank =>
    obtain ⟨promise, hfind, rfl⟩ := Option.map_eq_some_iff.mp h
    have haffords : state.Affords (chart.book.rank rule + 1) budget := by
      have := hstands.affords
      simp only [Affords] at this ⊢
      omega
    have hknows := List.find?_some hfind
    exact hpromises rule care promise (List.mem_of_find?_eq_some hfind) origin state
      ⟨hstands.sees.weaken hknows, hstands.grounded, hstands.origin_le, haffords⟩ ha
  · cases h

end IsCharted

/-- The courses of a phrase are right, if what is promised for the rules is. -/
theorem isCharted (hseats : chart.Enforces holds)
    (hacc : ∀ rule, Accounts (drawRule rule)) (hbook : chart.book.Holds budget drawRule)
    (hpromises : chart.Holds holds budget drawRule) (phrase : Phrase Rule) :
    IsCharted chart holds budget drawRule phrase := by
  induction phrase with
  | done => exact IsCharted.stay (fun _ => ⟨rfl, rfl⟩) fun _ _ _ => rfl
  | reject => exact IsCharted.stay (fun _ => ⟨rfl, rfl⟩) fun _ _ _ => rfl
  | choose kind => exact IsCharted.stay (fun _ => ⟨rfl, rfl⟩) fun _ _ _ => rfl
  | demand kind => exact IsCharted.stay (fun _ => ⟨rfl, rfl⟩) fun _ _ _ => rfl
  | relex mode => exact IsCharted.stay (fun _ => ⟨rfl, rfl⟩) fun _ _ _ => rfl
  | blame shape reading => exact IsCharted.stay (fun _ => ⟨rfl, rfl⟩) fun _ _ _ => rfl
  | take field =>
    intro care bound sight courses h origin state hstands _
    obtain rfl := Option.some.inj h
    exact Charted.taken hstands.sees.here field
  | expect kind field => exact IsCharted.expect kind field
  | close kind => exact IsCharted.close kind
  | missing what => exact IsCharted.complain (fun _ => rfl) fun _ _ _ => rfl
  | refuse message => exact IsCharted.complain (fun _ => rfl) fun _ _ _ => rfl
  | seq first second ih ih' => exact IsCharted.seq hacc hbook ih ih'
  | both first second ih ih' => exact IsCharted.both hacc hbook ih ih'
  | branch test yes no ih ih' => exact IsCharted.branch test ih ih'
  | loop test body ih => exact IsCharted.loop hacc hbook test ih
  | node body ih => exact IsCharted.node hseats ih
  | slot field body ih => exact IsCharted.slot field ih
  | chain head test field body ih ih' => exact IsCharted.chain hacc hbook hseats ih ih' test field
  | look probe yes no _ ih ih' => exact IsCharted.look ih ih'
  | attempt body yes no ih ih' ih'' => exact IsCharted.attempt hacc hbook ih ih' ih''
  | recover element ih => exact IsCharted.recover hseats ih
  | absorb body ih =>
    intro care bound sight courses h origin state hstands _
    have hcharted := ih h origin state hstands (by
      intro hc
      cases care <;> simp [Care.isClean] at hc)
    obtain ⟨hmeets, course, hcourse, hdescribes⟩ := hcharted
    exact ⟨hmeets, course, hcourse, hdescribes.verdict, hdescribes.filling⟩
  | nested body ih => exact IsCharted.nested ih
  | call rule => exact IsCharted.call hpromises rule

end Phrase

end ScriptTree

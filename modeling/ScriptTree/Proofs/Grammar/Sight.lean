import ScriptTree.Parser.Phrase
import ScriptTree.Proofs.Kind.Set
import ScriptTree.Proofs.Lexer.Reading
import ScriptTree.Proofs.Parser.Drawing

/-!
Sights: what can be known about a state from the phrases that led to it. A sight bounds the kinds of
the next three tokens, and may know whether a further level of nesting is allowed, whether a label
goes on, and whether a token has been taken. Each operation on sights is sound for what it
describes.
-/

namespace ScriptTree

/-- What is known about a state. `behind` bounds the kind of the token that was taken last. `room`
says whether a deeper level is allowed, `label` at which distance a label goes on behind one of its
names, and `moved` that a token has been taken. -/
structure Sight where
  behind : KindSet
  here : KindSet
  next : KindSet
  after : KindSet
  room : Option Bool
  label : Option Nat
  moved : Bool
  deriving DecidableEq, Repr, Inhabited

def Lexer.LabelAhead (lexer : Lexer) : Nat → Prop
  | 0 => ∃ limit, Test.labelTail lexer limit = true
  | distance + 1 => lexer.advance.LabelAhead distance

namespace Sight

structure Sees (sight : Sight) (origin : Nat) (state : ParseState) : Prop where
  behind : sight.behind.contains state.lexer.preceding = true
  here : sight.here.contains state.kind = true
  next : sight.next.contains (state.lexer.ahead 1).kind = true
  after : sight.after.contains (state.lexer.ahead 2).kind = true
  room : ∀ known, sight.room = some known → decide (state.depth < state.limit) = known
  label : ∀ distance, sight.label = some distance → state.lexer.LabelAhead distance
  moved : sight.moved = true → origin < state.lexer.start.offset

def Finds (sight : Option Sight) (origin : Nat) (state : ParseState) : Prop :=
  ∃ known, sight = some known ∧ known.Sees origin state

def vague (room : Option Bool) : Sight :=
  { behind := .full, here := .full, next := .full, after := .full, room, label := none,
    moved := false }

theorem vague_sees {room : Option Bool} {origin : Nat} {state : ParseState}
    (h : ∀ known, room = some known → decide (state.depth < state.limit) = known) :
    (vague room).Sees origin state :=
  ⟨by simp [vague], by simp [vague], by simp [vague], by simp [vague], h, by simp [vague],
    by simp [vague]⟩

def labelMarks : KindSet :=
  .ofList [.dot, .colon]

/-- A label goes on with a point and a name, or ends with a colon. -/
theorem labelTail_marks {lexer : Lexer} {limit : Nat} (h : Test.labelTail lexer limit = true) :
    labelMarks.contains lexer.current.kind = true ∧
      (lexer.current.kind = .dot →
        lexer.advance.current.kind = .name ∧ lexer.advance.LabelAhead 1) := by
  cases limit with
  | zero => simp [Test.labelTail] at h
  | succ limit =>
    unfold Test.labelTail at h
    split at h
    · next hk =>
      rw [Bool.and_eq_true, beq_iff_eq] at h
      exact ⟨by rw [hk]; decide, fun _ => ⟨h.1, limit, h.2⟩⟩
    · next hk =>
      rw [beq_iff_eq] at h
      exact ⟨by rw [h]; decide, fun hd => absurd hd hk⟩

def spell (sight : Sight) : Sight :=
  match sight.label with
  | some 0 =>
    let here := sight.here.inter labelMarks
    let next := if here.isSubset (.single .dot) then sight.next.inter (.single .name)
      else sight.next
    { sight with here, next }
  | some 1 =>
    let next := sight.next.inter labelMarks
    let after := if next.isSubset (.single .dot) then sight.after.inter (.single .name)
      else sight.after
    { sight with next, after }
  | _ => sight

/-- What the rest of a label says about the tokens to come is so. -/
theorem Sees.spell {sight : Sight} {origin : Nat} {state : ParseState}
    (h : sight.Sees origin state) : sight.spell.Sees origin state := by
  unfold Sight.spell
  split
  · next hl =>
    obtain ⟨limit, ht⟩ := h.label 0 hl
    obtain ⟨hmarks, hdot⟩ := labelTail_marks ht
    have hhere : (sight.here.inter labelMarks).contains state.kind = true := by
      rw [KindSet.contains_inter, h.here]
      exact hmarks
    refine ⟨h.behind, hhere, ?_, h.after, h.room, h.label, h.moved⟩
    dsimp only
    split
    · next hs =>
      have hk := KindSet.contains_of_isSubset hs hhere
      rw [KindSet.contains_single, beq_iff_eq] at hk
      rw [KindSet.contains_inter, h.next, KindSet.contains_single, Bool.true_and, beq_iff_eq]
      exact (hdot hk.symm).1.symm
    · exact h.next
  · next hl =>
    obtain ⟨limit, ht⟩ := h.label 1 hl
    obtain ⟨hmarks, hdot⟩ := labelTail_marks ht
    have hnext : (sight.next.inter labelMarks).contains (state.lexer.ahead 1).kind = true := by
      rw [KindSet.contains_inter, h.next]
      exact hmarks
    refine ⟨h.behind, h.here, hnext, ?_, h.room, h.label, h.moved⟩
    dsimp only
    split
    · next hs =>
      have hk := KindSet.contains_of_isSubset hs hnext
      rw [KindSet.contains_single, beq_iff_eq] at hk
      rw [KindSet.contains_inter, h.after, KindSet.contains_single, Bool.true_and, beq_iff_eq]
      exact (hdot hk.symm).1.symm
    · exact h.after
  · exact h

/-- The sight with what its label says, unless no token is possible somewhere. -/
def focus (sight : Sight) : Option Sight :=
  let spelled := sight.spell
  if spelled.here.isEmpty || spelled.next.isEmpty || spelled.after.isEmpty then none
  else some spelled

theorem Sees.focus {sight : Sight} {origin : Nat} {state : ParseState}
    (h : sight.Sees origin state) : Finds sight.focus origin state := by
  have hs := h.spell
  refine ⟨sight.spell, ?_, hs⟩
  simp [Sight.focus, KindSet.not_isEmpty_of_contains hs.here,
    KindSet.not_isEmpty_of_contains hs.next, KindSet.not_isEmpty_of_contains hs.after]

def either (a b : Sight) : Sight :=
  { behind := a.behind.union b.behind
    here := a.here.union b.here
    next := a.next.union b.next
    after := a.after.union b.after
    room := if a.room = b.room then a.room else none
    label := if a.label = b.label then a.label else none
    moved := a.moved && b.moved }

/-- What is seen in one of two situations is seen in either. -/
theorem Sees.either_left {a : Sight} {origin : Nat} {state : ParseState} (h : a.Sees origin state)
    (b : Sight) : (a.either b).Sees origin state := by
  refine ⟨?_, ?_, ?_, ?_, ?_, ?_, ?_⟩
  · simp [either, KindSet.contains_union, h.behind]
  · simp [either, KindSet.contains_union, h.here]
  · simp [either, KindSet.contains_union, h.next]
  · simp [either, KindSet.contains_union, h.after]
  · intro known hr
    simp only [either] at hr
    split at hr
    · exact h.room known hr
    · cases hr
  · intro distance hl
    simp only [either] at hl
    split at hl
    · exact h.label distance hl
    · cases hl
  · intro hm
    simp only [either, Bool.and_eq_true] at hm
    exact h.moved hm.1

/-- It does not matter which of two situations comes first. -/
theorem either_comm (a b : Sight) : a.either b = b.either a := by
  have hu (x y : KindSet) : x.union y = y.union x := by
    simp [KindSet.union, Nat.or_comm]
  unfold either
  rw [hu a.behind, hu a.here, hu a.next, hu a.after, Bool.and_comm]
  congr 1
  · split
    · next h => rw [if_pos h.symm, h]
    · next h => rw [if_neg (Ne.symm h)]
  · split
    · next h => rw [if_pos h.symm, h]
    · next h => rw [if_neg (Ne.symm h)]

def join : Option Sight → Option Sight → Option Sight
  | none, sight => sight
  | sight, none => sight
  | some a, some b => some (a.either b)

theorem Finds.join_left {a : Option Sight} {origin : Nat} {state : ParseState}
    (h : Finds a origin state) (b : Option Sight) : Finds (join a b) origin state := by
  obtain ⟨known, rfl, hs⟩ := h
  cases b with
  | none => exact ⟨known, rfl, hs⟩
  | some b => exact ⟨known.either b, rfl, hs.either_left b⟩

theorem Finds.join_right {b : Option Sight} {origin : Nat} {state : ParseState}
    (h : Finds b origin state) (a : Option Sight) : Finds (join a b) origin state := by
  obtain ⟨known, rfl, hs⟩ := h
  cases a with
  | none => exact ⟨known, rfl, hs⟩
  | some a => exact ⟨a.either known, rfl, either_comm known a ▸ hs.either_left a⟩

def knows (a b : Sight) : Bool :=
  a.behind.isSubset b.behind && a.here.isSubset b.here && a.next.isSubset b.next &&
    a.after.isSubset b.after && (b.room == none || a.room == b.room) &&
    (b.label == none || a.label == b.label) && (!b.moved || a.moved)

/-- Less can be known than there is to see. -/
theorem Sees.weaken {a b : Sight} {origin : Nat} {state : ParseState} (h : a.Sees origin state)
    (hk : a.knows b = true) : b.Sees origin state := by
  simp only [knows, Bool.and_eq_true, Bool.or_eq_true, beq_iff_eq, Bool.not_eq_true'] at hk
  obtain ⟨⟨⟨⟨⟨⟨hbehind, hhere⟩, hnext⟩, hafter⟩, hroom⟩, hlabel⟩, hmoved⟩ := hk
  refine ⟨KindSet.contains_of_isSubset hbehind h.behind, KindSet.contains_of_isSubset hhere h.here,
    KindSet.contains_of_isSubset hnext h.next, KindSet.contains_of_isSubset hafter h.after, ?_,
      ?_, ?_⟩
  · intro known hr
    rcases hroom with hn | he
    · rw [hn] at hr
      cases hr
    · exact h.room known (he.trans hr)
  · intro distance hl
    rcases hlabel with hn | he
    · rw [hn] at hl
      cases hl
    · exact h.label distance (he.trans hl)
  · intro hm
    rcases hmoved with hn | he
    · rw [hn] at hm
      cases hm
    · exact h.moved he

def narrow (sight : Sight) (distance : Nat) (keep : KindSet → KindSet) : Option Sight :=
  match distance with
  | 0 => focus { sight with here := keep sight.here }
  | 1 => focus { sight with next := keep sight.next }
  | 2 => focus { sight with after := keep sight.after }
  | _ => some sight

theorem Sees.narrow {sight : Sight} {origin : Nat} {state : ParseState}
    (h : sight.Sees origin state) {distance : Nat} {keep : KindSet → KindSet}
    (hk : ∀ set : KindSet, set.contains (state.lexer.ahead distance).kind = true →
      (keep set).contains (state.lexer.ahead distance).kind = true) :
    Finds (sight.narrow distance keep) origin state := by
  match distance with
  | 0 => exact Sees.focus ⟨h.behind, hk _ h.here, h.next, h.after, h.room, h.label, h.moved⟩
  | 1 => exact Sees.focus ⟨h.behind, h.here, hk _ h.next, h.after, h.room, h.label, h.moved⟩
  | 2 => exact Sees.focus ⟨h.behind, h.here, h.next, hk _ h.after, h.room, h.label, h.moved⟩
  | distance + 3 => exact ⟨sight, rfl, h⟩

def assume : Test → Bool → Sight → Option Sight
  | .peek distance kinds, true, sight => sight.narrow distance (·.inter kinds)
  | .peek distance kinds, false, sight => sight.narrow distance (·.without kinds)
  | .word _, true, sight => sight.narrow 0 (·.inter (.single .name))
  | .label, true, sight => (sight.narrow 0 (·.inter (.single .name))).bind fun sight =>
      focus { sight with label := some 1 }
  | .not test, holds, sight => assume test (!holds) sight
  | .and first second, true, sight => (assume first true sight).bind (assume second true)
  | .and first second, false, sight =>
    join (assume first false sight) ((assume first true sight).bind (assume second false))
  | .or first second, true, sight =>
    join (assume first true sight) ((assume first false sight).bind (assume second true))
  | .or first second, false, sight => (assume first false sight).bind (assume second false)
  | _, _, sight => some sight

theorem Finds.bind {sight : Option Sight} {origin : Nat} {state : ParseState}
    {more : Sight → Option Sight} (h : Finds sight origin state)
    (h' : ∀ known, known.Sees origin state → Finds (more known) origin state) :
    Finds (sight.bind more) origin state := by
  obtain ⟨known, rfl, hs⟩ := h
  exact h' known hs

/-- The answer of a test narrows what is seen, and what is left is still there to see. -/
theorem Sees.assume {sight : Sight} {origin : Nat} {state : ParseState}
    (h : sight.Sees origin state) (test : Test) :
    Finds (sight.assume test (test.holds state)) origin state := by
  -- the answer is made a variable, since that of a negated test is another one
  suffices hall : ∀ holds, test.holds state = holds → ∀ sight : Sight, sight.Sees origin state →
      Finds (sight.assume test holds) origin state from hall _ rfl sight h
  clear h sight
  have hname {sight : Sight} (h : sight.Sees origin state) (hk : state.kind = .name) :
      Finds (sight.narrow 0 (·.inter (.single .name))) origin state := by
    refine h.narrow fun set hs => ?_
    rw [KindSet.contains_inter, hs, KindSet.contains_single, Bool.true_and, beq_iff_eq]
    exact hk.symm
  induction test with
  | peek distance kinds =>
    rintro (_ | _) ht sight h
    · refine h.narrow fun set hs => ?_
      rw [KindSet.contains_without, hs, show kinds.contains _ = false from ht]
      rfl
    · refine h.narrow fun set hs => ?_
      rw [KindSet.contains_inter, hs, show kinds.contains _ = true from ht]
      rfl
  | word words =>
    rintro (_ | _) ht sight h
    · exact ⟨sight, rfl, h⟩
    · simp only [Test.holds, Bool.and_eq_true, beq_iff_eq] at ht
      exact hname h ht.1
  | label =>
    rintro (_ | _) ht sight h
    · exact ⟨sight, rfl, h⟩
    · simp only [Test.holds, Bool.and_eq_true, beq_iff_eq] at ht
      refine (hname h ht.1).bind fun known hs => Sees.focus ?_
      refine ⟨hs.behind, hs.here, hs.next, hs.after, hs.room, ?_, hs.moved⟩
      rintro distance hd
      obtain rfl := Option.some.inj hd
      exact ⟨_, ht.2⟩
  | glued =>
    rintro (_ | _) ht sight h
    · exact ⟨sight, rfl, h⟩
    · exact ⟨sight, rfl, h⟩
  | not test ih =>
    intro holds ht sight h
    refine ih (!holds) ?_ sight h
    rw [← ht]
    simp [Test.holds]
  | and first second ih ih' =>
    rintro (_ | _) ht sight h
    · simp only [Test.holds, Bool.and_eq_false_iff] at ht
      -- of two tests that do not both hold, the first fails, or it holds and the second fails
      cases hf : first.holds state with
      | false => exact (ih false hf sight h).join_left _
      | true =>
        have hsecond := ht.resolve_left (by rw [hf]; exact Bool.noConfusion)
        exact ((ih true hf sight h).bind (ih' false hsecond)).join_right _
    · simp only [Test.holds, Bool.and_eq_true] at ht
      exact (ih true ht.1 sight h).bind (ih' true ht.2)
  | or first second ih ih' =>
    rintro (_ | _) ht sight h
    · simp only [Test.holds, Bool.or_eq_false_iff] at ht
      exact (ih false ht.1 sight h).bind (ih' false ht.2)
    · simp only [Test.holds, Bool.or_eq_true] at ht
      cases hf : first.holds state with
      | true => exact (ih true hf sight h).join_left _
      | false =>
        have hsecond := ht.resolve_left (by rw [hf]; exact Bool.noConfusion)
        exact ((ih false hf sight h).bind (ih' true hsecond)).join_right _

def pass (sight : Sight) : Option Sight :=
  focus
    { sight with
      behind := sight.here
      here := sight.next
      next := sight.after
      after := .full
      label := match sight.label with
        | none => none
        | some 0 => if sight.here.isSubset (.single .dot) then some 1 else none
        | some (distance + 1) => some distance
      moved := true }

/-- Behind the lookahead, what was known of the next token is known of the lookahead. -/
theorem Sees.pass {sight : Sight} {origin : Nat} {state : ParseState}
    (h : sight.Sees origin state) (hp : state.lexer.Placed) (hk : state.kind ≠ .eof)
    (ho : origin ≤ state.lexer.start.offset) :
    Finds sight.pass origin (state.moveTo state.lexer.advance) := by
  refine Sees.focus ⟨h.here, h.next, h.after, by simp, h.room, ?_, ?_⟩
  · intro distance hl
    dsimp only at hl
    split at hl
    · cases hl
    · next hz =>
      split at hl
      · next hs =>
        obtain rfl := Option.some.inj hl
        obtain ⟨limit, ht⟩ := h.label 0 hz
        have hdot := KindSet.contains_of_isSubset hs h.here
        rw [KindSet.contains_single, beq_iff_eq] at hdot
        exact ((labelTail_marks ht).2 hdot.symm).2
      · cases hl
    · next d hd =>
      obtain rfl := Option.some.inj hl
      exact h.label _ hd
  · intro _
    exact Nat.lt_of_le_of_lt ho (hp.offset_lt hk)

/-- What is known after the lookahead is taken, unless the text is at its end. -/
def take (sight : Sight) : Option Sight :=
  join ((sight.narrow 0 (·.without (.single .eof))).bind pass)
    (sight.narrow 0 (·.inter (.single .eof)))

/-- Taking stands still at the end of the text and passes the lookahead elsewhere. -/
theorem Sees.take {sight : Sight} {origin : Nat} {state : ParseState}
    (h : sight.Sees origin state) (hp : state.lexer.Placed)
    (ho : origin ≤ state.lexer.start.offset) (field : Option Field) :
    Finds sight.take origin (state.moveTo (Reading.taken state field).lexer) := by
  unfold Reading.taken
  split
  · next hk =>
    refine Finds.join_right (h.narrow fun set hs => ?_) _
    rw [KindSet.contains_inter, hs, KindSet.contains_single, Bool.true_and, beq_iff_eq]
    exact hk.symm
  · next hk =>
    refine Finds.join_left ?_ _
    have hfind : Finds (sight.narrow 0 (·.without (.single .eof))) origin state := by
      refine h.narrow fun set hs => ?_
      rw [KindSet.contains_without, hs, KindSet.contains_single, Bool.true_and,
        Bool.not_eq_true', beq_eq_false_iff_ne]
      exact Ne.symm hk
    obtain ⟨known, he, hs⟩ := hfind
    rw [he]
    exact hs.pass hp hk ho

end Sight

end ScriptTree

import ScriptTree.Proofs.Parser.Answer
import ScriptTree.Proofs.Parser.Footing
import ScriptTree.Proofs.Parser.Nesting
import ScriptTree.Proofs.Parser.Quiet
import ScriptTree.Proofs.Recovery.Skipping
import ScriptTree.Proofs.Tiling

/-!
Error nodes stay within the braces around them. A closing brace is skipped alone only where a
repetition goes on at closing braces, which is at the top level of a file and in a body without
braces. That a phrase has no such repetition anywhere else is computed on the phrase.
-/

namespace ScriptTree

def Token.EndAt (offset : Nat) (tokens : List Token) : Prop :=
  ∃ front last, tokens = front ++ [last] ∧ last.stop = offset

/-- The tokens of an error node in a text of `size` bytes: a closing brace alone, or tokens that
close no brace that they did not open, and leave none open unless they reach the end of the text. -/
def Token.Contained (size : Nat) (tokens : List Token) : Prop :=
  tokens.map (·.kind) = [.rightBrace] ∨
    Kind.Nests 0 (tokens.map (·.kind)) ∧
      ((tokens.map (·.kind)).count .rightBrace = (tokens.map (·.kind)).count .leftBrace ∨
        Token.EndAt size tokens)

/-- Where tokens were taken and the text ends, no layout is left. -/
theorem Lexer.Reads.offset_of_eof {text : String} {a b : Lexer} {tokens : List Token}
    (h : Lexer.Reads a tokens b) (ha : a.Reached text) (hne : tokens ≠ [])
    (heof : b.current.kind = .eof) : b.start.offset = text.utf8ByteSize := by
  -- the layout in front of the end of the text belongs to the last token
  have hafter : (layout b.start).after.rest = [] := by
    rw [(h.placed ha.placed).current_eq] at heof
    exact (scan_kind_eq_eof_iff _ _ _).mp heof
  rw [layout_of_none (h.stretch?_eq_none ha.placed hne)] at hafter
  have hsize := (ha.reads h).within.offset_add
  rwa [hafter, byteCount_nil, Nat.add_zero] at hsize

/-- At the end of the text, tokens that were taken reach the end of the text. -/
theorem Lexer.Reads.endAt {text : String} {a b : Lexer} {tokens : List Token}
    (h : Lexer.Reads a tokens b) (ha : a.Reached text) (hne : tokens ≠ [])
    (heof : b.current.kind = .eof) : Token.EndAt text.utf8ByteSize tokens := by
  rw [← h.offset_of_eof ha hne heof]
  obtain ⟨front, last, rfl⟩ := (List.eq_nil_or_concat tokens).resolve_left hne
  rw [List.concat_eq_append] at h ⊢
  refine ⟨front, last, rfl, ?_⟩
  obtain ⟨c, hfront, rfl, hrest⟩ := h.cut
  rw [(ha.reads hfront).liesOn.2]
  exact congrArg Cursor.offset (hrest.tiled (advance_placed c)).eq_of_nil.symm

namespace Token

/-- What is wrong with a token does not matter for where it lies. -/
theorem Contained.cleared {size : Nat} {tokens : List Token} (h : Contained size tokens) :
    Contained size (tokens.map Token.cleared) := by
  have hkinds : (tokens.map Token.cleared).map (·.kind) = tokens.map (·.kind) := by
    rw [List.map_map]
    rfl
  rw [Contained, hkinds]
  refine h.imp_right fun ⟨hnests, hcount⟩ => ⟨hnests, hcount.imp_right ?_⟩
  rintro ⟨front, last, rfl, hstop⟩
  exact ⟨front.map Token.cleared, last.cleared, List.map_append, hstop⟩

end Token

namespace Skipping

variable {lexer last : Lexer} {tokens : List Token}

theorem contained {text : String} (h : Skipping 0 true lexer tokens last)
    (hreached : lexer.Reached text) (hreads : Lexer.Reads lexer tokens last) :
    Token.Contained text.utf8ByteSize tokens := by
  rcases h.nests with ⟨-, hlone⟩ | ⟨hnests, hcount | heof⟩
  · exact Or.inl hlone
  · exact Or.inr ⟨hnests, Or.inl (by rw [hcount, Nat.zero_add])⟩
  · by_cases hne : tokens = []
    · exact Or.inr ⟨hnests, Or.inl (by rw [hne]; rfl)⟩
    · exact Or.inr ⟨hnests, Or.inr (hreads.endAt hreached hne heof)⟩

/-- Only a closing brace that stands first is skipped alone. -/
theorem not_lone {braces : Nat} {isFirst : Bool} (h : Skipping braces isFirst lexer tokens last)
    (hkind : lexer.current.kind ≠ .rightBrace) : tokens.map (·.kind) ≠ [.rightBrace] := by
  cases h <;> simp_all

end Skipping

namespace Shape

def isLoneBrace : Shape → Bool
  | .leaf _ _ => false
  | .node kind _ children => kind == .error && (tokensAll children).map (·.kind) == [.rightBrace]

structure Confines (size : Nat) (kind : Kind) (children : List Shape) : Prop where
  contained : kind = .error → Token.Contained size (tokensAll children)
  lone : ∀ child ∈ children, child.isLoneBrace = true → kind = .sourceFile ∨
    kind = .classBody ∧ ∀ token field, .leaf token field ∈ children → token.kind ≠ .leftBrace

@[simp] theorem isLoneBrace_withField (field : Field) (shape : Shape) :
    (shape.withField field).isLoneBrace = shape.isLoneBrace := by
  cases shape <;> rfl

theorem isLoneBrace_of_ne {kind : Kind} (h : kind ≠ .error) (field : Option Field)
    (children : List Shape) : (node kind field children).isLoneBrace = false := by
  simp [isLoneBrace, h]

/-- A node that is put into a slot remains no lone brace. -/
theorem isLoneBrace_fillLast {field : Field} {shapes : List Shape}
    (h : ∀ shape ∈ shapes, shape.isLoneBrace = false) :
    ∀ shape ∈ fillLast field shapes, shape.isLoneBrace = false := by
  rcases List.eq_nil_or_concat shapes with rfl | ⟨front, last, rfl⟩
  · exact h
  · rw [List.concat_eq_append] at h ⊢
    rw [fillLast_append_singleton]
    intro shape hmem
    rcases List.mem_append.mp hmem with hmem | hmem
    · exact h shape (List.mem_append_left _ hmem)
    · rw [List.mem_singleton.mp hmem, isLoneBrace_withField]
      exact h last (by simp)

end Shape

/-- The error nodes of a reading are confined. Unless `mayLone`, no closing brace stands alone among
its outermost shapes. -/
structure Reading.Confined (size : Nat) (mayLone : Bool) (reading : Reading) : Prop where
  all : Shape.AllOf (Shape.Confines size) reading.shapes
  lone : mayLone = false → ∀ shape ∈ reading.shapes, shape.isLoneBrace = false

namespace Reading

open ParseState Shape

variable {size : Nat} {mayLone : Bool} {first second reading body : Reading}

theorem confined_nothing (h : reading.shapes = []) : reading.Confined size mayLone :=
  ⟨by rw [h]; trivial, by simp [h]⟩

theorem confined_taken (state : ParseState) (field : Option Field) :
    (taken state field).Confined size mayLone := by
  unfold taken
  split
  · exact confined_nothing rfl
  · exact ⟨⟨trivial, trivial⟩, by simp [isLoneBrace]⟩

theorem Confined.congr (h : first.Confined size mayLone) (hshapes : second.shapes = first.shapes) :
    second.Confined size mayLone :=
  ⟨hshapes ▸ h.all, hshapes ▸ h.lone⟩

/-- Where no closing brace stands alone, it does not matter whether one may. -/
theorem Confined.weaken (h : reading.Confined size false) : reading.Confined size mayLone :=
  ⟨h.all, fun _ => h.lone rfl⟩

theorem Confined.andThen (h : first.Confined size mayLone) (h' : second.Confined size mayLone) :
    (first.andThen second).Confined size mayLone := by
  refine ⟨allOf_append.mpr ⟨h.all, h'.all⟩, ?_⟩
  intro hlone shape hmem
  rcases List.mem_append.mp hmem with hmem | hmem
  · exact h.lone hlone shape hmem
  · exact h'.lone hlone shape hmem

theorem Confined.fill (h : reading.Confined size mayLone) (field : Field) :
    (reading.fill field).Confined size mayLone := by
  by_cases hverdict : reading.verdict = .node
  · rw [fill_of_node hverdict]
    exact ⟨(allOf_fillLast field _).mpr h.all, fun hlone => isLoneBrace_fillLast (h.lone hlone)⟩
  · rwa [fill_of_ne_node hverdict]

/-- A node that is no error node confines its children if none of them is a closing brace alone. -/
theorem confines_of_ne {kind : Kind} (hkind : kind ≠ .error) {children : List Shape}
    (h : ∀ child ∈ children, child.isLoneBrace = false) : Confines size kind children :=
  ⟨fun herror => absurd herror hkind, fun child hmem hlone => by simp [h child hmem] at hlone⟩

theorem confined_close (hall : AllOf (Confines size) reading.shapes)
    (hloose : mayLone = false → ∀ shape ∈ reading.shapes, shape.isLoneBrace = false)
    (hnode : ∀ kind, reading.verdict = .chose kind → kind ≠ .error ∧
      Confines size kind reading.shapes) : reading.close.Confined size mayLone := by
  unfold Reading.close
  split
  · next kind hverdict =>
    obtain ⟨hkind, hconfines⟩ := hnode kind hverdict
    exact ⟨⟨⟨hconfines, hall⟩, trivial⟩, by simp [isLoneBrace_of_ne hkind]⟩
  · exact ⟨hall, hloose⟩

/-- A node around others confines what they confine, as long as it is no error node itself. -/
theorem Confined.wrap (h : reading.Confined size false) (hbody : body.Confined size false)
    (hkind : body.verdict ≠ .chose .error) : (reading.wrap body).Confined size mayLone := by
  unfold Reading.wrap
  split
  · next kind hverdict =>
    have hne : kind ≠ .error := fun he => hkind (he ▸ hverdict)
    have hall := allOf_iff.mp h.all
    have hmem {shape : Shape} (hlast : shape ∈ reading.shapes.getLast?.toList) :
        shape ∈ reading.shapes := List.mem_of_getLast? (Option.mem_toList.mp hlast)
    have hchildren : ∀ child ∈ reading.shapes.getLast?.toList ++ body.shapes,
        child.isLoneBrace = false := by
      intro child hchild
      rcases List.mem_append.mp hchild with hchild | hchild
      · exact h.lone rfl child (hmem hchild)
      · exact hbody.lone rfl child hchild
    refine ⟨allOf_append.mpr ⟨?_, ⟨confines_of_ne hne hchildren, allOf_append.mpr ⟨?_, hbody.all⟩⟩,
      trivial⟩, fun _ shape hshape => ?_⟩
    · exact allOf_iff.mpr fun shape hshape => hall shape (List.dropLast_subset _ hshape)
    · exact allOf_iff.mpr fun shape hshape => hall shape (hmem hshape)
    · rcases List.mem_append.mp hshape with hshape | hshape
      · exact h.lone rfl shape (List.dropLast_subset _ hshape)
      · rw [List.mem_singleton.mp hshape]
        exact isLoneBrace_of_ne hne _ _
  · have hboth := h.andThen hbody
    exact ⟨hboth.all, fun _ => hboth.lone rfl⟩

/-- A skipped element is contained. Only at a closing brace is it a closing brace alone. -/
theorem confined_skipped {state : ParseState} (hstate : state.Grounded) (dropped : Reading)
    (hlone : mayLone = false → state.kind ≠ .rightBrace) :
    (skipped state dropped).Confined state.size mayLone := by
  obtain ⟨text, hsize, hreached⟩ := hstate
  have hroom : text.utf8ByteSize - state.lexer.start.offset < state.rounds := by
    rw [← hsize]
    exact Nat.lt_succ_self _
  obtain ⟨tokens, last, hskips, hskipping⟩ := skipping_skipElement hreached hroom 0 true
  have htokens := tokensAll_leaves tokens Token.cleared
  have hcontained := (hskipping.contained hreached hskips.reads).cleared
  rw [← hsize, ← htokens] at hcontained
  rw [skipped_eq state dropped hskips]
  refine ⟨⟨⟨⟨fun _ => hcontained, ?_⟩, allOf_leaves _ _ _⟩, trivial⟩, ?_⟩
  · intro child hmem hchild
    obtain ⟨token, -, rfl⟩ := List.mem_map.mp hmem
    cases hchild
  · intro hnot shape hmem
    have hfirst := hskipping.not_lone (hlone hnot)
    rw [List.mem_singleton.mp hmem, isLoneBrace, htokens, List.map_map]
    simpa using hfirst

end Reading

def Test.admits : Test → KindSet
  | .not (.peek 0 kinds) => .without .full kinds
  | test => test.first

theorem Test.contains_admits {test : Test} {state : ParseState} (h : test.holds state = true) :
    test.admits.contains state.kind = true := by
  unfold admits
  split
  · next kinds =>
    rw [KindSet.contains_without, KindSet.contains_full, Bool.true_and]
    exact h
  · exact contains_first h

namespace Phrase

open ParseState Reading Shape

variable {Rule : Type}

/-- Whether a phrase always settles the kind of the node around it, unless it fails. -/
def decides : Phrase Rule → Bool
  | .choose _ | .missing _ | .refuse _ => true
  | .seq _ second => second.decides
  | .branch _ yes no | .look _ yes no | .attempt _ yes no => yes.decides && no.decides
  | .nested body => body.decides
  | _ => false

/-- Whether a phrase whose lookahead has one of the kinds `here` leaves no opening brace outside its
nodes, unless it fails. `known` are the rules that leave none. -/
def bare (known : Rule → Bool) : Phrase Rule → KindSet → Bool
  | .take _, here => !here.contains .leftBrace
  | .expect kind _, _ | .close kind, _ => kind != .leftBrace
  | .seq first second, here | .both first second, here =>
    first.bare known here && second.bare known .full
  | .branch test yes no, here => yes.bare known (here.inter test.admits) && no.bare known here
  | .loop test body, _ => body.bare known test.admits
  | .node body, _ => body.decides
  | .slot _ body, here | .nested body, here | .recover body, here => body.bare known here
  | .look _ yes no, here => yes.bare known here && no.bare known here
  | .attempt body yes no, here =>
    body.bare known here && yes.bare known .full && no.bare known here
  | .call rule, _ => known rule
  | .chain _ _ _ _, _ | .absorb _, _ => false
  | _, _ => true

/-- Whether the error nodes of a phrase are confined, its lookahead having one of the kinds `here`.
A repetition that goes on at closing braces is allowed in the body of a class only, unless
`mayLone`. If not `strict`, readings with failures do not matter. -/
def confines (known : Rule → Bool) : Phrase Rule → Bool → Bool → KindSet → Bool
  | .seq first second, mayLone, strict, here | .both first second, mayLone, strict, here =>
    first.confines known mayLone strict here && second.confines known mayLone strict .full
  | .branch test yes no, mayLone, strict, here =>
    yes.confines known mayLone strict (here.inter test.admits) &&
      no.confines known mayLone strict here
  | .loop test body, mayLone, strict, _ => body.confines known mayLone strict test.admits
  | .node body, _, strict, here =>
    if body.isComplaint then !strict || here.isDisjoint (.ofList [.leftBrace, .rightBrace])
    else
      body.confines known false strict here ||
        !strict && body.decides && body.chosen.isSubset (.single .classBody) &&
          body.bare known here && body.confines known true false here
  | .slot _ body, mayLone, strict, here | .nested body, mayLone, strict, here =>
    body.confines known mayLone strict here
  | .chain head _ _ body, _, strict, here =>
    head.confines known false strict here && body.confines known false strict .full
  | .look _ yes no, mayLone, strict, here =>
    yes.confines known mayLone strict here && no.confines known mayLone strict here
  | .attempt body yes no, mayLone, strict, here =>
    body.confines known mayLone false here && yes.confines known mayLone strict .full &&
      no.confines known mayLone strict here
  | .recover element, mayLone, _, here =>
    (mayLone || !here.contains .rightBrace) && element.confines known mayLone false here
  | .absorb body, mayLone, _, here => body.confines known mayLone true here
  | _, _, _, _ => true

variable {drawRule : Rule → ParseState → Reading} {known : Rule → Bool}

/-- A phrase that decides settles a kind, unless it fails. -/
theorem chose_of_decides {phrase : Phrase Rule} (h : phrase.decides = true) {state : ParseState}
    (hfailures : (phrase.draw drawRule state).failures = 0) :
    ∃ kind, (phrase.draw drawRule state).verdict = .chose kind := by
  induction phrase generalizing state with
  | choose kind => exact ⟨kind, rfl⟩
  | missing what => cases hfailures
  | refuse message => cases hfailures
  | seq first second _ ih =>
    exact ih h (Nat.add_eq_zero_iff.mp hfailures).2
  | branch test yes no ih ih' =>
    simp only [decides, Bool.and_eq_true] at h
    revert hfailures
    simp only [draw]
    split
    · exact ih h.1
    · exact ih' h.2
  | look probe yes no _ ih ih' =>
    simp only [decides, Bool.and_eq_true] at h
    revert hfailures
    simp only [draw, instead]
    split
    · exact ih h.1
    · exact ih' h.2
  | attempt body yes no _ ih ih' =>
    simp only [decides, Bool.and_eq_true] at h
    revert hfailures
    simp only [draw]
    split
    · intro hfailures
      exact ih h.1 (Nat.add_eq_zero_iff.mp hfailures).2
    · exact ih' h.2
  | nested body ih =>
    revert hfailures
    simp only [draw]
    split
    · exact fun hnone => absurd hnone Nat.one_ne_zero
    · exact ih h
  | _ => cases h

def BraceFree (shapes : List Shape) : Prop :=
  ∀ token field, .leaf token field ∈ shapes → token.kind ≠ .leftBrace

theorem braceFree_append {xs ys : List Shape} (h : BraceFree xs) (h' : BraceFree ys) :
    BraceFree (xs ++ ys) := by
  intro token field hmem
  rcases List.mem_append.mp hmem with hmem | hmem
  · exact h token field hmem
  · exact h' token field hmem

theorem braceFree_taken {state : ParseState} (field : Option Field)
    (h : state.kind ≠ .leftBrace) : BraceFree (taken state field).shapes := by
  unfold taken
  split
  · exact fun _ _ hmem => absurd hmem List.not_mem_nil
  · intro token slot hmem
    obtain ⟨rfl, -⟩ := Shape.leaf.inj (List.mem_singleton.mp hmem)
    exact h

/-- Rounds without braces make a loop without braces. -/
theorem braceFree_drawLoop {test : ParseState → Bool} {step : ParseState → Reading}
    {state : ParseState}
    (h : ∀ lexer, test (state.moveTo lexer) = true → (step (state.moveTo lexer)).failures = 0 →
      BraceFree (step (state.moveTo lexer)).shapes) {limit : Nat}
    (hfailures : (drawLoop test step state limit).failures = 0) :
    BraceFree (drawLoop test step state limit).shapes := by
  induction limit generalizing state with
  | zero => exact fun _ _ hmem => absurd hmem List.not_mem_nil
  | succ limit ih =>
    revert hfailures
    simp only [drawLoop]
    split
    · next htest =>
      split
      · exact h state.lexer htest
      · intro hfailures
        obtain ⟨hstep, hrest⟩ := Nat.add_eq_zero_iff.mp hfailures
        exact braceFree_append (h state.lexer htest hstep) (ih h hrest)
    · exact fun _ _ _ hmem => absurd hmem List.not_mem_nil

/-- A node in a slot is as free of braces as before. -/
theorem braceFree_fill {reading : Reading} (h : BraceFree reading.shapes) (field : Field) :
    BraceFree (reading.fill field).shapes := by
  unfold Reading.fill
  split
  · rcases List.eq_nil_or_concat reading.shapes with hnil | ⟨front, last, hshapes⟩
    · rw [hnil] at h ⊢
      exact h
    · rw [List.concat_eq_append] at hshapes
      rw [hshapes] at h
      simp only [hshapes, fillLast_append_singleton]
      intro token slot hmem
      rcases List.mem_append.mp hmem with hmem | hmem
      · exact h token slot (List.mem_append_left _ hmem)
      · cases last with
        | leaf held old =>
          obtain ⟨rfl, -⟩ := Shape.leaf.inj (List.mem_singleton.mp hmem)
          exact h token old (by simp)
        | node kind old children => cases List.mem_singleton.mp hmem
  · exact h

/-- A bare phrase leaves no opening brace outside its nodes, unless it fails. -/
theorem braceFree_draw
    (hknown : ∀ rule state, known rule = true → (drawRule rule state).failures = 0 →
      BraceFree (drawRule rule state).shapes)
    {phrase : Phrase Rule} {here : KindSet} (h : phrase.bare known here = true)
    {state : ParseState} (hhere : here.contains state.kind = true)
    (hfailures : (phrase.draw drawRule state).failures = 0) :
    BraceFree (phrase.draw drawRule state).shapes := by
  have hnone {reading : Reading} (hs : reading.shapes = []) : BraceFree reading.shapes :=
    fun _ _ hmem => absurd (hs ▸ hmem) List.not_mem_nil
  induction phrase generalizing state here with
  | take field =>
    have hne : state.kind ≠ .leftBrace := by
      rintro heq
      simp [bare, ← heq, hhere] at h
    exact braceFree_taken field hne
  | expect kind field =>
    simp only [bare, bne_iff_ne] at h
    simp only [draw]
    split
    · next hk => exact braceFree_taken field (hk ▸ h)
    · exact hnone rfl
  | close kind =>
    simp only [bare, bne_iff_ne] at h
    simp only [draw]
    split
    · next hk => exact braceFree_taken none (hk ▸ h)
    · exact hnone rfl
  | seq first second ih ih' =>
    simp only [bare, Bool.and_eq_true] at h
    obtain ⟨hfirst, hsecond⟩ := Nat.add_eq_zero_iff.mp hfailures
    exact braceFree_append (ih h.1 hhere hfirst) (ih' h.2 (KindSet.contains_full _) hsecond)
  | both first second ih ih' =>
    simp only [bare, Bool.and_eq_true] at h
    revert hfailures
    simp only [draw]
    split
    · exact ih h.1 hhere
    · intro hfailures
      obtain ⟨hfirst, hsecond⟩ := Nat.add_eq_zero_iff.mp hfailures
      exact braceFree_append (ih h.1 hhere hfirst) (ih' h.2 (KindSet.contains_full _) hsecond)
  | branch test yes no ih ih' =>
    simp only [bare, Bool.and_eq_true] at h
    revert hfailures
    simp only [draw]
    split
    · next htest =>
      exact ih h.1 (by rw [KindSet.contains_inter, hhere, Test.contains_admits htest]; rfl)
    · exact ih' h.2 hhere
  | loop test body ih =>
    refine braceFree_drawLoop (fun lexer htest => ?_) hfailures
    exact ih h (Test.contains_admits htest)
  | node body _ =>
    revert hfailures
    simp only [draw]
    rw [failures_close]
    intro hfailures
    obtain ⟨kind, hchose⟩ := chose_of_decides h hfailures
    rw [close_of_chose hchose]
    intro token field hmem
    cases List.mem_singleton.mp hmem
  | slot field body ih =>
    revert hfailures
    simp only [draw]
    rw [failures_fill]
    exact fun hfailures => braceFree_fill (ih h hhere hfailures) _
  | look probe yes no _ ih ih' =>
    simp only [bare, Bool.and_eq_true] at h
    revert hfailures
    simp only [draw, instead]
    split
    · exact ih h.1 hhere
    · exact ih' h.2 hhere
  | attempt body yes no ih ih' ih'' =>
    simp only [bare, Bool.and_eq_true] at h
    revert hfailures
    simp only [draw]
    split
    · intro hfailures
      obtain ⟨hbody, hyes⟩ := Nat.add_eq_zero_iff.mp hfailures
      exact braceFree_append (ih h.1.1 hhere hbody) (ih' h.1.2 (KindSet.contains_full _) hyes)
    · exact ih'' h.2 hhere
  | recover element ih =>
    simp only [draw]
    split
    · next hzero => exact ih h hhere hzero
    · intro token field hmem
      cases List.mem_singleton.mp hmem
  | nested body ih =>
    revert hfailures
    simp only [draw]
    split
    · exact fun hnone => absurd hnone Nat.one_ne_zero
    · exact ih h hhere
  | call rule => exact hknown rule state h hfailures
  | chain head test field body _ _ => cases h
  | absorb body _ => cases h
  | _ => exact hnone rfl

/-- What rules are to do so that phrases confine their error nodes. -/
structure RulesConfine (known : Rule → Bool) (drawRule : Rule → ParseState → Reading) : Prop where
  accounts : ∀ rule, Accounts (drawRule rule)
  answers : ∀ rule, Answers (drawRule rule)
  unsettled : ∀ rule state kind, (drawRule rule state).verdict ≠ .chose kind
  bare : ∀ rule state, known rule = true → (drawRule rule state).failures = 0 →
    BraceFree (drawRule rule state).shapes
  confined : ∀ rule state, state.Grounded → (drawRule rule state).Confined state.size false

variable {mayLone strict : Bool} {here : KindSet} {state : ParseState}

/-- A loop confines its error nodes if each of its rounds does. -/
theorem confined_drawLoop {test : ParseState → Bool} {step : ParseState → Reading}
    (hacc : Accounts step) (hstate : state.Grounded)
    (h : ∀ lexer, (state.moveTo lexer).Grounded → test (state.moveTo lexer) = true →
      strict = true ∨ (step (state.moveTo lexer)).failures = 0 →
      (step (state.moveTo lexer)).Confined state.size mayLone) {limit : Nat}
    (hstrict : strict = true ∨ (drawLoop test step state limit).failures = 0) :
    (drawLoop test step state limit).Confined state.size mayLone := by
  induction limit generalizing state with
  | zero => exact confined_nothing rfl
  | succ limit ih =>
    revert hstrict
    simp only [drawLoop]
    split
    · next htest =>
      split
      · exact fun hstrict => (h state.lexer hstate htest hstrict).congr rfl
      · intro hstrict
        have hstep : strict = true ∨ (step state).failures = 0 :=
          hstrict.imp_right fun hzero => (Nat.add_eq_zero_iff.mp hzero).1
        have hrest := hstrict.imp_right fun hzero => (Nat.add_eq_zero_iff.mp hzero).2
        exact (h state.lexer hstate htest hstep).andThen (ih (hstate.moveTo (hacc state)) h hrest)
    · exact fun _ => confined_nothing rfl

/-- A chain confines its error nodes if its head and each of its rounds do, and no round makes an
error node. -/
theorem confined_drawChain {test : ParseState → Bool} {field : Kind → Field}
    {step : ParseState → Reading} (hacc : Accounts step) (hstate : state.Grounded)
    (h : ∀ lexer, (state.moveTo lexer).Grounded →
      strict = true ∨ (step (state.moveTo lexer)).failures = 0 →
      (step (state.moveTo lexer)).Confined state.size false)
    (hkind : ∀ lexer, (step (state.moveTo lexer)).verdict ≠ .chose .error) {reading : Reading}
    (hreads : Accounted state.lexer reading)
    (hreading : strict = true ∨ reading.failures = 0 → reading.Confined state.size false)
    {limit : Nat}
    (hstrict : strict = true ∨ (drawChain test field step state reading limit).failures = 0) :
    (drawChain test field step state reading limit).Confined state.size mayLone := by
  induction limit generalizing reading with
  | zero => exact (hreading hstrict).weaken.congr rfl
  | succ limit ih =>
    let moved := state.moveTo reading.lexer
    let wrapped := (reading.fill (field moved.kind)).wrap (step moved)
    have hmoved : moved.Grounded := hstate.moveTo hreads
    have haround : Accounted state.lexer wrapped := by
      refine (hreads.fill _).wrap ?_
      rw [fill_lexer]
      exact hacc moved
    have hwrapped : strict = true ∨ wrapped.failures = 0 →
        ∀ mayLone, wrapped.Confined state.size mayLone := by
      intro hzero mayLone
      have hparts : strict = true ∨ reading.failures = 0 ∧ (step moved).failures = 0 := by
        refine hzero.imp_right fun hzero => Nat.add_eq_zero_iff.mp ?_
        rw [← failures_fill reading (field moved.kind), ← failures_wrap]
        exact hzero
      exact ((hreading (hparts.imp_right And.left)).fill _).wrap
        (h reading.lexer hmoved (hparts.imp_right And.right)) (hkind reading.lexer)
    revert hstrict
    simp only [drawChain]
    split
    · split
      · exact fun hstrict => hwrapped hstrict mayLone
      · rw [drawChain_moveTo]
        exact ih haround fun hzero => hwrapped hzero false
    · exact fun hstrict => (hreading hstrict).weaken

/-- A complaint fails, and takes no brace where none can stand. -/
theorem confined_complaint {body : Phrase Rule} (hcomplaint : body.isComplaint = true)
    (hhere : here.contains state.kind = true)
    (h : (!strict || here.isDisjoint (.ofList [.leftBrace, .rightBrace])) = true)
    (hstrict : strict = true ∨ (body.draw drawRule state).failures = 0) :
    (body.draw drawRule state).close.Confined state.size mayLone := by
  have hfails (report : Diagnostic) (field : Option Field) (kind : Kind) :
      strict = true ∨ ((failing state report).andThen ((taken state field).andThen
        (stay (state.moveTo (taken state field).lexer) (.chose kind)))).failures = 0 →
      ((failing state report).andThen ((taken state field).andThen
        (stay (state.moveTo (taken state field).lexer) (.chose kind)))).close.Confined state.size
          mayLone := by
    intro hstrict
    have hstrict : strict = true := hstrict.resolve_right (by simp [andThen, failing])
    simp only [hstrict, Bool.not_true, Bool.false_or] at h
    have hbrace {brace : Kind} (hmem : brace ∈ [Kind.leftBrace, .rightBrace]) :
        state.current.kind ≠ brace := by
      rintro rfl
      have hnot := KindSet.not_contains_of_isDisjoint h hhere
      exact absurd (KindSet.contains_ofList.mpr hmem) (Bool.eq_false_iff.mp hnot)
    have hleft := hbrace (show Kind.leftBrace ∈ _ by simp)
    have hright := hbrace (show Kind.rightBrace ∈ _ by simp)
    rw [close_of_chose rfl]
    simp only [andThen, failing, stay, List.nil_append, List.append_nil]
    have hnests := Kind.nests_nil 0
    -- the node holds the lookahead, or nothing at the end of the text
    unfold taken
    split
    · refine ⟨⟨⟨⟨fun _ => Or.inr ⟨hnests, Or.inl rfl⟩, ?_⟩, trivial⟩, trivial⟩, fun _ => ?_⟩
      · exact fun _ hmem => absurd hmem List.not_mem_nil
      · simp [isLoneBrace, stay]
    · have hkinds : Kind.Nests 0 [state.current.kind] :=
        Kind.nests_cons (by simp [hleft, hright]) hnests
      refine ⟨⟨⟨⟨fun _ => Or.inr ⟨hkinds, Or.inl ?_⟩, ?_⟩, trivial, trivial⟩, trivial⟩, fun _ => ?_⟩
      · simp [tokens, hleft, hright]
      · simp [isLoneBrace]
      · simp [isLoneBrace, tokens, hright]
  unfold isComplaint at hcomplaint
  split at hcomplaint
  · exact hfails _ _ _ hstrict
  · exact hfails _ _ _ hstrict
  · cases hcomplaint

/-- A phrase confines its error nodes. -/
theorem confined_draw (hrules : RulesConfine known drawRule) {phrase : Phrase Rule}
    (hanswers : phrase.answers = true) (h : phrase.confines known mayLone strict here = true)
    (hstate : state.Grounded) (hhere : here.contains state.kind = true)
    (hstrict : strict = true ∨ (phrase.draw drawRule state).failures = 0) :
    (phrase.draw drawRule state).Confined state.size mayLone := by
  have hacc (phrase : Phrase Rule) : Accounts (phrase.draw drawRule) :=
    Accounts.phrase hrules.accounts phrase
  -- `strict` says whether readings with failures count, too; a failure is let pass where it is
  -- taken back anyway
  induction phrase generalizing state here mayLone strict with
  | take field => exact confined_taken state field
  | expect kind field =>
    simp only [draw]
    split
    · exact confined_taken state field
    · exact confined_nothing rfl
  | close kind =>
    simp only [draw]
    split
    · exact confined_taken state none
    · exact confined_nothing rfl
  | seq first second ih ih' =>
    simp only [answers, confines, Bool.and_eq_true] at hanswers h
    have hfirst := hstrict.imp_right fun hzero => (Nat.add_eq_zero_iff.mp hzero).1
    have hsecond := hstrict.imp_right fun hzero => (Nat.add_eq_zero_iff.mp hzero).2
    exact (ih hanswers.1 h.1 hstate hhere hfirst).andThen
      (ih' hanswers.2 h.2 (hstate.moveTo (hacc first state)) (KindSet.contains_full _) hsecond)
  | both first second ih ih' =>
    simp only [answers, confines, Bool.and_eq_true] at hanswers h
    revert hstrict
    simp only [draw]
    split
    · exact ih hanswers.1 h.1 hstate hhere
    · intro hstrict
      have hfirst := hstrict.imp_right fun hzero => (Nat.add_eq_zero_iff.mp hzero).1
      have hsecond := hstrict.imp_right fun hzero => (Nat.add_eq_zero_iff.mp hzero).2
      exact (ih hanswers.1 h.1 hstate hhere hfirst).andThen
        (ih' hanswers.2 h.2 (hstate.moveTo (hacc first state)) (KindSet.contains_full _) hsecond)
  | branch test yes no ih ih' =>
    simp only [answers, confines, Bool.and_eq_true] at hanswers h
    revert hstrict
    simp only [draw]
    split
    · next htest =>
      refine ih hanswers.1 h.1 hstate ?_
      rw [KindSet.contains_inter, hhere, Test.contains_admits htest]
      rfl
    · exact ih' hanswers.2 h.2 hstate hhere
  | loop test body ih =>
    refine confined_drawLoop (hacc body) hstate (fun lexer hmoved htest hzero => ?_) hstrict
    exact ih hanswers h hmoved (Test.contains_admits htest) hzero
  | node body ih =>
    simp only [confines] at h
    simp only [draw] at hstrict ⊢
    rw [failures_close] at hstrict
    split at h
    · next hcomplaint => exact confined_complaint hcomplaint hhere h hstrict
    · next hplain =>
      simp only [answers, hplain, Bool.false_or] at hanswers
      simp only [Bool.or_eq_true, Bool.and_eq_true, Bool.not_eq_true'] at h
      have hkind := (Answers.phrase hrules.accounts hrules.answers hanswers state).other
      have hne {kind : Kind} (hchose : (body.draw drawRule state).verdict = .chose kind) :
          kind ≠ .error := fun heq => hkind (heq ▸ hchose)
      rcases h with h | ⟨⟨⟨⟨hlenient, hdecides⟩, hclass⟩, hbare⟩, h⟩
      · have hbody := ih hanswers h hstate hhere hstrict
        refine confined_close hbody.all (fun _ => hbody.lone rfl) fun kind hchose => ?_
        exact ⟨hne hchose, confines_of_ne (hne hchose) (hbody.lone rfl)⟩
      · -- a body of a class in which repetition goes on at closing braces
        have hzero := hstrict.resolve_left (by simp [hlenient])
        have hbody := ih hanswers h hstate hhere (Or.inr hzero)
        obtain ⟨kind, hchose⟩ := chose_of_decides hdecides hzero
        have hclass : kind = .classBody := by
          rcases contains_chosen_or hchose with hkind | ⟨rule, other, hrule, -⟩
          · have hmem := KindSet.contains_of_isSubset hclass hkind
            rw [KindSet.contains_single, beq_iff_eq] at hmem
            exact hmem.symm
          · exact absurd hrule (hrules.unsettled rule other kind)
        have hfree := braceFree_draw hrules.bare hbare hhere hzero
        have hconfines : Shape.Confines state.size kind (body.draw drawRule state).shapes :=
          ⟨fun herror => absurd herror (hne hchose), fun _ _ _ => Or.inr ⟨hclass, hfree⟩⟩
        rw [close_of_chose hchose]
        exact ⟨⟨⟨hconfines, hbody.all⟩, trivial⟩, by simp [isLoneBrace_of_ne (hne hchose)]⟩
  | slot field body ih =>
    revert hstrict
    simp only [draw]
    rw [failures_fill]
    exact fun hstrict => (ih hanswers h hstate hhere hstrict).fill _
  | chain head test field body ih ih' =>
    simp only [answers, confines, Bool.and_eq_true] at hanswers h
    revert hstrict
    simp only [draw]
    split
    · intro hstrict
      refine confined_drawChain (hacc body) hstate (fun lexer hmoved hzero => ?_) (fun lexer => ?_)
        (hacc head state) (ih hanswers.1 h.1 hstate hhere) hstrict
      · exact ih' hanswers.2 h.2 hmoved (KindSet.contains_full _) hzero
      · exact (Answers.phrase hrules.accounts hrules.answers hanswers.2 _).other
    · exact fun hstrict => (ih hanswers.1 h.1 hstate hhere hstrict).weaken.congr rfl
  | look probe yes no _ ih ih' =>
    simp only [answers, confines, Bool.and_eq_true] at hanswers h
    revert hstrict
    simp only [draw]
    split
    · exact fun hstrict => (ih hanswers.1 h.1 hstate hhere hstrict).congr rfl
    · exact fun hstrict => (ih' hanswers.2 h.2 hstate hhere hstrict).congr rfl
  | attempt body yes no ih ih' ih'' =>
    simp only [answers, confines, Bool.and_eq_true] at hanswers h
    revert hstrict
    simp only [draw]
    split
    · next hclean =>
      intro hstrict
      simp only [Reading.isClean, Bool.and_eq_true, beq_iff_eq] at hclean
      have hyes := hstrict.imp_right fun hzero => (Nat.add_eq_zero_iff.mp hzero).2
      exact (ih hanswers.1.1 h.1.1 hstate hhere (Or.inr hclean.2)).andThen
        (ih' hanswers.1.2 h.1.2 (hstate.moveTo (hacc body state)) (KindSet.contains_full _) hyes)
    · exact fun hstrict => (ih'' hanswers.2 h.2 hstate hhere hstrict).congr rfl
  | recover element ih =>
    simp only [confines, Bool.and_eq_true, Bool.or_eq_true, Bool.not_eq_true'] at h
    simp only [draw]
    split
    · next hzero => exact (ih hanswers h.2 hstate hhere (Or.inr hzero)).congr rfl
    · -- a brace that closes nothing is skipped by itself, which only the body of a class without
      -- braces allows
      refine confined_skipped hstate _ ?_
      rintro rfl hbrace
      have hnot := h.1.resolve_left (by simp)
      rw [← hbrace, hhere] at hnot
      cases hnot
  | absorb body ih => exact (ih hanswers h hstate hhere (Or.inl rfl)).congr rfl
  | nested body ih =>
    revert hstrict
    simp only [draw]
    split
    · exact fun _ => confined_nothing rfl
    · exact ih hanswers h hstate hhere
  | call rule => exact (hrules.confined rule state hstate).weaken
  | _ => exact confined_nothing rfl

/-- The rules of a grammar whose phrases confine their error nodes. -/
theorem rulesConfine_drawRule {grammar : Rule → Phrase Rule}
    (hanswers : ∀ rule, (grammar rule).answers = true)
    (hchosen : ∀ rule, (grammar rule).chosen = .empty)
    (hbare : ∀ rule, known rule = true → (grammar rule).bare known .full = true)
    (hconfines : ∀ rule, (grammar rule).confines known false true .full = true) (budget : Nat) :
    RulesConfine known (Phrase.drawRule grammar budget) := by
  induction budget with
  | zero =>
    refine ⟨accounts_drawRule grammar 0, answers_drawRule hanswers 0,
      drawRule_ne_chose hchosen 0, ?_, fun _ _ _ => confined_nothing rfl⟩
    exact fun _ _ _ _ _ _ hmem => absurd hmem List.not_mem_nil
  | succ budget ih =>
    refine ⟨accounts_drawRule grammar _, answers_drawRule hanswers _,
      drawRule_ne_chose hchosen _, ?_, ?_⟩
    · intro rule state hknown hfailures
      exact braceFree_draw ih.bare (hbare rule hknown) (KindSet.contains_full _) hfailures
    · intro rule state hstate
      exact confined_draw ih (hanswers rule) (hconfines rule) hstate (KindSet.contains_full _)
        (Or.inl rfl)

end Phrase

end ScriptTree

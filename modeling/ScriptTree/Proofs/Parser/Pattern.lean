import ScriptTree.Proofs.Parser.Slots
import ScriptTree.Proofs.Tree.Shown

/-!
Patterns: what a phrase reads, told from the phrase. A phrase is followed path by path; each path
says how the phrase comes out, which tokens and nodes it leaves side by side, and what is known of
the lookahead behind it. Only quiet readings are followed. On the way every node is checked against
a condition on its kind and the pattern of its children, so a survey of all rules shows that the
condition holds of every node of a quiet reading.
-/

namespace ScriptTree

structure Prospect where
  kinds : KindSet
  words : Option (List String)
  deriving DecidableEq, Repr, Inhabited

namespace Prospect

structure Holds (known : Prospect) (token : Token) : Prop where
  kind : known.kinds.contains token.kind = true
  word : ∀ words, known.words = some words → Text.lower token.text ∈ words

def vague : Prospect :=
  ⟨.full, none⟩

def isVoid (known : Prospect) : Bool :=
  known.kinds.isEmpty

def within (known : Prospect) (kinds : KindSet) : Prospect :=
  { known with kinds := known.kinds.inter kinds }

def without (known : Prospect) (kinds : KindSet) : Prospect :=
  { known with kinds := known.kinds.without kinds }

def either (a b : Prospect) : Prospect :=
  { kinds := a.kinds.union b.kinds
    words := match a.words, b.words with
      | some first, some second => some (first ++ second)
      | _, _ => none }

def spelled (known : Prospect) (words : List String) : Prospect :=
  { kinds := known.kinds.inter (.single .name)
    words := some (match known.words with
      | none => words
      | some before => before.filter words.contains) }

/-- The token is none of the words, unless it is no name. -/
def misspelled (known : Prospect) (words : List String) : Prospect :=
  if known.kinds.isSubset (.single .name) then
    { known with words := known.words.map (·.filter fun word => !words.contains word) }
  else known

def assume : Test → Bool → Prospect → Prospect
  | .peek 0 kinds, true, known => known.within kinds
  | .peek 0 kinds, false, known => known.without kinds
  | .word words, true, known => known.spelled words
  | .word words, false, known => known.misspelled words
  | .not test, holds, known => assume test (!holds) known
  | .and first second, true, known => assume second true (assume first true known)
  | .and first second, false, known =>
    (assume first false known).either (assume second false (assume first true known))
  | .or first second, true, known =>
    (assume first true known).either (assume second true (assume first false known))
  | .or first second, false, known => assume second false (assume first false known)
  | _, _, known => known

def splits (choice : Kind → Field) (known : Prospect) : List (Field × Prospect) :=
  if Kind.all.all fun kind => choice kind == choice .eof then [(choice .eof, known)]
  else
    let kinds := Kind.all.filter known.kinds.contains
    (kinds.map choice).eraseDups.map fun field =>
      (field, { known with kinds := .ofList (kinds.filter fun kind => choice kind == field) })

variable {known : Prospect} {token : Token}

theorem holds_vague (token : Token) : vague.Holds token :=
  ⟨KindSet.contains_full _, nofun⟩

theorem Holds.not_isVoid (h : known.Holds token) : known.isVoid = false :=
  KindSet.not_isEmpty_of_contains h.kind

theorem Holds.within (h : known.Holds token) {kinds : KindSet}
    (hk : kinds.contains token.kind = true) : (known.within kinds).Holds token := by
  refine ⟨?_, h.word⟩
  rw [Prospect.within, KindSet.contains_inter, h.kind, hk, Bool.and_self]

theorem Holds.without (h : known.Holds token) {kinds : KindSet}
    (hk : kinds.contains token.kind = false) : (known.without kinds).Holds token := by
  refine ⟨?_, h.word⟩
  rw [Prospect.without, KindSet.contains_without, h.kind, hk]
  rfl

/-- What is known of a token in one of two cases is known in either. -/
theorem holds_either {a b : Prospect} (h : a.Holds token ∨ b.Holds token) :
    (a.either b).Holds token := by
  refine ⟨?_, ?_⟩
  · rw [either, KindSet.contains_union, Bool.or_eq_true]
    exact h.imp Holds.kind Holds.kind
  · intro words hwords
    cases ha : a.words with
    | none => simp [either, ha] at hwords
    | some first =>
      cases hb : b.words with
      | none => simp [either, ha, hb] at hwords
      | some second =>
        obtain rfl : first ++ second = words := by simpa [either, ha, hb] using hwords
        exact List.mem_append.mpr (h.imp (fun h => h.word _ ha) fun h => h.word _ hb)

theorem Holds.spelled (h : known.Holds token) {words : List String} (hk : token.kind = .name)
    (hw : words.contains (Text.lower token.text) = true) : (known.spelled words).Holds token := by
  have hname : (KindSet.single .name).contains token.kind = true := by simp [hk]
  refine ⟨(h.within hname).kind, ?_⟩
  intro words' hwords
  obtain rfl := Option.some.inj hwords
  split
  · exact List.contains_iff_mem.mp hw
  · next before hb => exact List.mem_filter.mpr ⟨h.word _ hb, hw⟩

/-- A test for words that fails leaves the token with other words. -/
theorem Holds.misspelled (h : known.Holds token) {words : List String}
    (hw : (token.kind == .name && words.contains (Text.lower token.text)) = false) :
    (known.misspelled words).Holds token := by
  unfold Prospect.misspelled
  split
  · next hs =>
    have hk : token.kind = .name := by
      have hname := KindSet.contains_of_isSubset hs h.kind
      rw [KindSet.contains_single, beq_iff_eq] at hname
      exact hname.symm
    rw [hk, beq_self_eq_true, Bool.true_and] at hw
    refine ⟨h.kind, ?_⟩
    intro words' hwords
    obtain ⟨before, hb, rfl⟩ := Option.map_eq_some_iff.mp hwords
    exact List.mem_filter.mpr ⟨h.word _ hb, by rw [hw]; rfl⟩
  · exact h

/-- The answer of a test narrows what is known of the lookahead. -/
theorem Holds.assume {state : ParseState} (h : known.Holds state.current) {test : Test}
    {holds : Bool} (ht : test.holds state = holds) :
    (known.assume test holds).Holds state.current := by
  induction test generalizing known holds with
  | peek distance kinds =>
    cases distance with
    | zero =>
      cases holds with
      | true => exact h.within ht
      | false => exact h.without ht
    | succ distance => cases holds <;> exact h
  | word words =>
    cases holds with
    | true =>
      simp only [Test.holds, Bool.and_eq_true, beq_iff_eq] at ht
      exact h.spelled ht.1 ht.2
    | false => exact h.misspelled ht
  | label => cases holds <;> exact h
  | glued => cases holds <;> exact h
  | not test ih =>
    refine ih h ?_
    rw [← ht]
    simp [Test.holds]
  | and first second ih ih' =>
    cases holds with
    | true =>
      simp only [Test.holds, Bool.and_eq_true] at ht
      exact ih' (ih h ht.1) ht.2
    | false =>
      refine holds_either ?_
      cases hf : first.holds state with
      | false => exact Or.inl (ih h hf)
      | true =>
        simp only [Test.holds, hf, Bool.true_and] at ht
        exact Or.inr (ih' (ih h hf) ht)
  | or first second ih ih' =>
    cases holds with
    | true =>
      refine holds_either ?_
      cases hf : first.holds state with
      | true => exact Or.inl (ih h hf)
      | false =>
        simp only [Test.holds, hf, Bool.false_or] at ht
        exact Or.inr (ih' (ih h hf) ht)
    | false =>
      simp only [Test.holds, Bool.or_eq_false_iff] at ht
      exact ih' (ih h ht.1) ht.2

/-- The slot of a token is among those that its possible kinds are split into. -/
theorem Holds.splits (h : known.Holds token) (choice : Kind → Field) :
    ∃ entry ∈ known.splits choice, entry.1 = choice token.kind ∧ entry.2.Holds token := by
  unfold Prospect.splits
  split
  · next hall =>
    rw [List.all_eq_true] at hall
    have heq : choice token.kind = choice .eof := beq_iff_eq.mp (hall _ (Kind.mem_all _))
    exact ⟨_, List.mem_singleton_self _, heq.symm, h⟩
  · have hmem : token.kind ∈ Kind.all.filter known.kinds.contains :=
      List.mem_filter.mpr ⟨Kind.mem_all _, h.kind⟩
    refine ⟨_, List.mem_map.mpr ⟨choice token.kind, ?_, rfl⟩, rfl, ?_, h.word⟩
    · exact List.mem_eraseDups.mpr (List.mem_map_of_mem hmem)
    · exact KindSet.contains_ofList.mpr (List.mem_filter.mpr ⟨hmem, beq_self_eq_true _⟩)

end Prospect

/-- What is known of shapes that stand side by side. -/
inductive Pattern where
  /-- One token in a slot. -/
  | token (known : Prospect) (field : Option Field)
  /-- One node in a slot, of one of the kinds and with children as described. -/
  | node (kinds : KindSet) (field : Option Field) (below : List Pattern)
  /-- Any number of tokens, and of nodes with one of the kinds that are listed with their slot. -/
  | many (nodes : List (Option Field × KindSet))
  /-- Anything. -/
  | any
  deriving Inhabited

namespace Pattern

mutual

/-- The shapes are as described. -/
def Covers : Pattern → List Shape → Prop
  | .token known field, shapes => ∃ token, shapes = [.leaf token field] ∧ known.Holds token
  | .node kinds field below, shapes =>
    ∃ kind children, shapes = [.node kind field children] ∧ kinds.contains kind = true ∧
      Fits below children
  | .many nodes, shapes => ∀ kind field children, .node kind field children ∈ shapes →
    ∃ kinds, (field, kinds) ∈ nodes ∧ kinds.contains kind = true
  | .any, _ => True

def Fits : List Pattern → List Shape → Prop
  | [], shapes => shapes = []
  | part :: rest, shapes =>
    ∃ front back, shapes = front ++ back ∧ part.Covers front ∧ Fits rest back

end

attribute [local simp] Covers Fits

theorem fits_nil : Fits [] [] := by
  simp

theorem fits_singleton {part : Pattern} {shapes : List Shape} :
    Fits [part] shapes ↔ part.Covers shapes := by
  simp only [Fits]
  constructor
  · rintro ⟨front, back, rfl, hpart, rfl⟩
    rwa [List.append_nil]
  · intro hpart
    exact ⟨shapes, [], (List.append_nil _).symm, hpart, rfl⟩

theorem fits_any (shapes : List Shape) : Fits [.any] shapes := by
  rw [fits_singleton, Covers]
  trivial

theorem Fits.append {xs ys : List Pattern} {front back : List Shape} (h : Fits xs front)
    (h' : Fits ys back) : Fits (xs ++ ys) (front ++ back) := by
  induction xs generalizing front with
  | nil =>
    rw [Fits] at h
    simpa [h] using h'
  | cons part rest ih =>
    rw [Fits] at h
    obtain ⟨first, more, rfl, hpart, hrest⟩ := h
    rw [List.cons_append, Fits]
    exact ⟨first, more ++ back, List.append_assoc _ _ _, hpart, ih hrest⟩

def nodes? : List Pattern → Option (List (Option Field × KindSet))
  | [] => some []
  | .token _ _ :: rest => nodes? rest
  | .node kinds field _ :: rest => (nodes? rest).map ((field, kinds) :: ·)
  | .many nodes :: rest => (nodes? rest).map (nodes ++ ·)
  | .any :: _ => none

theorem covers_many_append {nodes : List (Option Field × KindSet)} {front back : List Shape}
    (h : (many nodes).Covers front) (h' : (many nodes).Covers back) :
    (many nodes).Covers (front ++ back) := by
  simp only [Covers] at h h' ⊢
  intro kind field children hmem
  exact (List.mem_append.mp hmem).elim (h kind field children) (h' kind field children)

theorem Covers.many_mono {nodes nodes' : List (Option Field × KindSet)} {shapes : List Shape}
    (h : (many nodes).Covers shapes) (hsub : nodes ⊆ nodes') : (many nodes').Covers shapes := by
  simp only [Covers] at h ⊢
  intro kind field children hmem
  obtain ⟨kinds, hin, hkind⟩ := h kind field children hmem
  exact ⟨kinds, hsub hin, hkind⟩

/-- Parts of nodes and tokens in any number cover what they fit. -/
theorem Fits.covers_many {parts : List Pattern} {nodes : List (Option Field × KindSet)}
    {shapes : List Shape} (h : Fits parts shapes) (hnodes : nodes? parts = some nodes) :
    (many nodes).Covers shapes := by
  induction parts generalizing nodes shapes with
  | nil =>
    rw [Fits] at h
    simp [h]
  | cons part rest ih =>
    rw [Fits] at h
    obtain ⟨front, back, rfl, hpart, hrest⟩ := h
    cases part with
    | token known field =>
      obtain ⟨token, rfl, -⟩ : ∃ token, front = [.leaf token field] ∧ _ := by
        simpa using hpart
      refine covers_many_append ?_ (ih hrest hnodes)
      simp
    | node kinds field below =>
      obtain ⟨more, hmore, rfl⟩ := Option.map_eq_some_iff.mp hnodes
      obtain ⟨kind, children, rfl, hkind, -⟩ :
          ∃ kind children, front = [.node kind field children] ∧ _ := by
        simpa only [Covers] using hpart
      refine covers_many_append ?_ ((ih hrest hmore).many_mono (List.subset_cons_self _ _))
      simp only [Covers, List.mem_singleton]
      intro kind' field' children' heq
      injection heq with hk hf
      exact ⟨kinds, by simp [hf], hk ▸ hkind⟩
    | many inner =>
      obtain ⟨more, hmore, rfl⟩ := Option.map_eq_some_iff.mp hnodes
      exact covers_many_append (hpart.many_mono (List.subset_append_left _ _))
        ((ih hrest hmore).many_mono (List.subset_append_right _ _))
    | any => cases hnodes

end Pattern

def gather {α β : Type} (more : α → Option (List β)) : List α → Option (List β)
  | [] => some []
  | first :: rest => do return (← more first) ++ (← gather more rest)

/-- What is gathered holds the results of every member. -/
theorem exists_of_gather {α β : Type} {more : α → Option (List β)} {list : List α}
    {results : List β} (h : gather more list = some results) {a : α} (ha : a ∈ list) :
    ∃ part, more a = some part ∧ part ⊆ results := by
  induction list generalizing results with
  | nil => cases ha
  | cons first rest ih =>
    simp only [gather, Option.bind_eq_bind, Option.bind_eq_some_iff] at h
    obtain ⟨front, hfront, back, hback, heq⟩ := h
    obtain rfl := Option.some.inj heq
    rcases List.mem_cons.mp ha with rfl | ha
    · exact ⟨front, hfront, List.subset_append_left _ _⟩
    · obtain ⟨part, hpart, hsub⟩ := ih hback ha
      exact ⟨part, hpart, List.subset_append_of_subset_right _ hsub⟩

def KindSet.unionAll (sets : List KindSet) : KindSet :=
  sets.foldr KindSet.union .empty

theorem KindSet.contains_unionAll {sets : List KindSet} {set : KindSet} (h : set ∈ sets)
    {kind : Kind} (hk : set.contains kind = true) : (unionAll sets).contains kind = true := by
  induction sets with
  | nil => cases h
  | cons first rest ih =>
    rw [unionAll, List.foldr_cons, KindSet.contains_union, Bool.or_eq_true]
    rcases List.mem_cons.mp h with rfl | h
    · exact Or.inl hk
    · exact Or.inr (ih h)

structure Path where
  verdict : Verdict
  parts : List Pattern
  next : Prospect
  deriving Inhabited

namespace Path

/-- The reading is one that the path is about. -/
structure Describes (path : Path) (reading : Reading) : Prop where
  verdict : reading.verdict = path.verdict
  parts : Pattern.Fits path.parts reading.shapes
  next : path.next.Holds reading.lexer.current

/-- The ways to take the lookahead unless the text is at its end. -/
def taking (here : Prospect) (field : Option Field) : List Path :=
  let taken := here.without (.single .eof)
  (if here.kinds.contains .eof then [⟨.done, [], here⟩] else []) ++
    if taken.isVoid then [] else [⟨.done, [.token taken field], .vague⟩]

def andThen (first second : Path) : Path :=
  { second with parts := first.parts ++ second.parts }

def making (kinds : KindSet) (field : Option Field) (next : Prospect) : Path :=
  ⟨.node, [.node kinds field [.any]], next⟩

def fill (choice : Kind → Field) (path : Path) : Option (List Path) :=
  match path.verdict, path.parts with
  | .node, [.node kinds _ below] =>
    some ((path.next.splits choice).map fun (field, next) =>
      ⟨.node, [.node kinds (some field) below], next⟩)
  | .node, _ => none
  | _, _ => some [path]

def close (path : Path) : Path :=
  match path.verdict with
  | .chose kind => ⟨.node, [.node (.single kind) none path.parts], path.next⟩
  | _ => { path with verdict := .failed }

def base? (path : Path) : Option (List KindSet) :=
  match path.verdict, path.parts with
  | .node, [.node kinds none _] => some [kinds]
  | .node, _ => none
  | _, _ => some []

def chosen (path : Path) : KindSet :=
  match path.verdict with
  | .chose kind => .single kind
  | _ => .empty

def meets (condition : Kind → List Pattern → Bool) (front : List Pattern) (path : Path) : Bool :=
  match path.verdict with
  | .chose kind => condition kind (front ++ path.parts)
  | _ => true

variable {path : Path} {reading : Reading}

theorem Describes.andThen {first second : Path} {reading reading' : Reading}
    (h : first.Describes reading) (h' : second.Describes reading') :
    (first.andThen second).Describes (reading.andThen reading') :=
  ⟨h'.verdict, h.parts.append h'.parts, h'.next⟩

/-- Taking the lookahead is one of the ways in which it can be taken. -/
theorem exists_taking {here : Prospect} {state : ParseState} (h : here.Holds state.current)
    (field : Option Field) :
    ∃ path ∈ taking here field, path.Describes (Reading.taken state field) := by
  unfold Reading.taken
  by_cases he : state.kind = .eof
  · rw [if_pos he]
    have heof : here.kinds.contains .eof = true := he ▸ h.kind
    refine ⟨⟨.done, [], here⟩, ?_, rfl, Pattern.fits_nil, h⟩
    simp [taking, heof]
  · rw [if_neg he]
    have htaken : (here.without (.single .eof)).Holds state.current := by
      refine h.without ?_
      rw [KindSet.contains_single, beq_eq_false_iff_ne]
      exact fun heq => he heq.symm
    refine ⟨⟨.done, [.token (here.without (.single .eof)) field], .vague⟩, ?_, rfl, ?_,
      Prospect.holds_vague _⟩
    · simp [taking, htaken.not_isVoid]
    · rw [Pattern.fits_singleton, Pattern.Covers]
      exact ⟨state.current, rfl, htaken⟩

/-- A node that is closed on a path is closed in the reading. -/
theorem Describes.close (h : path.Describes reading) : path.close.Describes reading.close := by
  unfold Path.close
  cases hv : path.verdict with
  | chose kind =>
    rw [Reading.close_of_chose (h.verdict.trans hv)]
    refine ⟨rfl, ?_, h.next⟩
    rw [Pattern.fits_singleton, Pattern.Covers]
    exact ⟨kind, reading.shapes, rfl, by simp, h.parts⟩
  | _ =>
    have hverdict := h.verdict.trans hv
    simp only [Reading.close, hverdict]
    exact ⟨rfl, h.parts, h.next⟩

/-- The slot is split by the kinds of the lookahead, and one part of the split is the one that was
read. -/
theorem Describes.fill (h : path.Describes reading) {choice : Kind → Field}
    {paths : List Path} (hfill : path.fill choice = some paths) :
    ∃ filled ∈ paths,
      filled.Describes (reading.fill (choice reading.lexer.current.kind)) := by
  unfold Path.fill at hfill
  split at hfill
  · next kinds old below hv hp =>
    obtain rfl := Option.some.inj hfill
    have hparts := h.parts
    rw [hp, Pattern.fits_singleton, Pattern.Covers] at hparts
    obtain ⟨kind, children, hshapes, hkind, hbelow⟩ := hparts
    obtain ⟨entry, hentry, hslot, hnext⟩ := h.next.splits choice
    refine ⟨_, List.mem_map_of_mem hentry, ?_⟩
    rw [Reading.fill_of_node (h.verdict.trans hv), hshapes]
    refine ⟨h.verdict.trans hv, ?_, hnext⟩
    rw [Pattern.fits_singleton, Pattern.Covers, hslot]
    exact ⟨kind, children, rfl, hkind, hbelow⟩
  · cases hfill
  · next hne hv =>
    obtain rfl := Option.some.inj hfill
    refine ⟨path, List.mem_singleton_self _, ?_⟩
    have hverdict : reading.verdict ≠ .node := by
      rw [h.verdict]
      exact hne
    have hfilled : reading.fill (choice reading.lexer.current.kind) = reading := by
      unfold Reading.fill
      split
      · next hn => exact absurd hn hverdict
      · rfl
    rw [hfilled]
    exact h

/-- The base of a chain is the node that its head has made. -/
theorem Describes.base {bases : List KindSet} (h : path.Describes reading)
    (hbase : path.base? = some bases) (hnode : reading.verdict = .node) :
    ∃ kinds ∈ bases, ∃ kind children, reading.shapes = [.node kind none children] ∧
      kinds.contains kind = true := by
  unfold base? at hbase
  split at hbase
  · next kinds below hv hp =>
    obtain rfl := Option.some.inj hbase
    have hparts := h.parts
    rw [hp, Pattern.fits_singleton, Pattern.Covers] at hparts
    obtain ⟨kind, children, hshapes, hkind, -⟩ := hparts
    exact ⟨kinds, List.mem_singleton_self _, kind, children, hshapes, hkind⟩
  · cases hbase
  · next hne hv => exact absurd (h.verdict.symm.trans hnode) hne

end Path

namespace Phrase

open ParseState Reading

variable {Rule : Type} {condition : Kind → List Pattern → Bool}
  {holds : Kind → List Shape → Prop} {yields : Rule → Option Field × KindSet}
  {drawRule : Rule → ParseState → Reading}

/-- The paths of a phrase from a lookahead on, unless one of its nodes may break the condition.
`yields` gives the node that each rule makes. -/
def survey (condition : Kind → List Pattern → Bool) (yields : Rule → Option Field × KindSet) :
    Phrase Rule → Prospect → Option (List Path)
  | .done, here => some [⟨.done, [], here⟩]
  | .reject, here => some [⟨.failed, [], here⟩]
  | .choose kind, here => some [⟨.chose kind, [], here⟩]
  | .take field, here => some (Path.taking here field)
  | .expect kind field, here => some (Path.taking (here.within (.single kind)) field)
  | .close kind, here => some (Path.taking (here.within (.single kind)) none)
  -- these always have something to report
  | .missing _, _ | .refuse _, _ | .blame _ _, _ => some []
  | .demand kind, here => some [⟨.done, [], here.within (.single kind)⟩]
  | .relex _, _ => some [⟨.done, [], .vague⟩]
  | .seq first second, here => do
    gather (fun path => (second.survey condition yields path.next).map (·.map path.andThen))
      (← first.survey condition yields here)
  | .both first second, here => do
    gather (fun path =>
      if path.verdict = .failed then some [path]
      else (second.survey condition yields path.next).map (·.map path.andThen))
      (← first.survey condition yields here)
  | .branch test yes no, here => do
    let along (phrase : Prospect → Option (List Path)) (here : Prospect) :=
      if here.isVoid then some [] else phrase here
    return (← along (yes.survey condition yields) (here.assume test true)) ++
      (← along (no.survey condition yields) (here.assume test false))
  | .look _ yes no, here => do
    return (← yes.survey condition yields here) ++ (← no.survey condition yields here)
  | .attempt body yes no, here => do
    let kept ← gather (fun path =>
      if path.verdict = .failed then some []
      else (yes.survey condition yields path.next).map (·.map path.andThen))
      (← body.survey condition yields here)
    return kept ++ (← no.survey condition yields here)
  | .loop test body, _ => do
    let rounds ← body.survey condition yields (Prospect.vague.assume test true)
    let nodes ← gather (fun path => Pattern.nodes? path.parts) rounds
    return [⟨.done, [.many nodes], .vague⟩]
  | .node body, here => do
    let paths ← body.survey condition yields here
    if paths.all (·.meets condition []) then some (paths.map Path.close) else none
  | .slot choice body, here => do
    gather (Path.fill choice) (← body.survey condition yields here)
  | .chain head test choice body, here => do
    let heads ← head.survey condition yields here
    let bases ← gather Path.base? heads
    let rounds ← gather (fun entry =>
      (body.survey condition yields entry.2).map (·.map fun path => (entry.1, path)))
      ((Prospect.vague.assume test true).splits choice)
    let kinds := KindSet.unionAll (bases ++ rounds.map (·.2.chosen))
    if rounds.all fun round => round.2.meets condition [.node kinds (some round.1) [.any]] then
      return .making kinds none (Prospect.vague.assume test false) ::
        (heads.filter (·.verdict != .node)).map fun path => { path with verdict := .failed }
    else none
  | .recover element, here => do
    return (← element.survey condition yields here).map fun path => { path with verdict := .done }
  | .absorb body, here | .nested body, here => body.survey condition yields here
  | .call rule, _ => some [.making (yields rule).2 (yields rule).1 .vague]

structure Surveyed (holds : Kind → List Shape → Prop) (paths : List Path) (reading : Reading) :
    Prop where
  meets : Shape.AllOf holds reading.shapes
  described : ∃ path ∈ paths, path.Describes reading

def RulesYield (holds : Kind → List Shape → Prop) (yields : Rule → Option Field × KindSet)
    (drawRule : Rule → ParseState → Reading) : Prop :=
  ∀ rule state, Quiet (drawRule rule state) →
    Surveyed holds [.making (yields rule).2 (yields rule).1 .vague] (drawRule rule state)

theorem Surveyed.mono {paths paths' : List Path} {reading : Reading}
    (h : Surveyed holds paths reading) (hsub : paths ⊆ paths') :
    Surveyed holds paths' reading := by
  obtain ⟨hmeets, path, hpath, hdescribes⟩ := h
  exact ⟨hmeets, path, hsub hpath, hdescribes⟩

theorem Surveyed.instead {paths paths' : List Path} {reading dropped : Reading}
    (h : Surveyed holds paths reading) (hsub : paths ⊆ paths') :
    Surveyed holds paths' (reading.instead dropped) := by
  obtain ⟨hmeets, path, hpath, hdescribes⟩ := h
  exact ⟨hmeets, path, hsub hpath, hdescribes.verdict, hdescribes.parts, hdescribes.next⟩

theorem surveyed_nothing {reading : Reading} {path : Path} (hs : reading.shapes = [])
    (h : path.Describes reading) : Surveyed holds [path] reading :=
  ⟨by rw [hs]; exact trivial, path, List.mem_singleton_self _, h⟩

theorem surveyed_taken {here : Prospect} {state : ParseState} (h : here.Holds state.current)
    (field : Option Field) : Surveyed holds (Path.taking here field) (taken state field) := by
  refine ⟨?_, Path.exists_taking h field⟩
  unfold taken
  split
  · exact trivial
  · exact ⟨trivial, trivial⟩

/-- A phrase that goes on behind one of the paths. -/
theorem Surveyed.andThen {first second : Reading} {path : Path} {paths results : List Path}
    (hmeets : Shape.AllOf holds first.shapes) (hpath : path.Describes first)
    (h : Surveyed holds paths second) (hsub : paths.map path.andThen ⊆ results) :
    Surveyed holds results (first.andThen second) := by
  obtain ⟨hmeets', other, hother, hdescribes⟩ := h
  exact ⟨Shape.allOf_append.mpr ⟨hmeets, hmeets'⟩, _, hsub (List.mem_map_of_mem hother),
    hpath.andThen hdescribes⟩

/-- What holds of what every round leaves, and of such shapes side by side, holds of what the loop
leaves. -/
theorem drawLoop_closed (closed : List Shape → Prop) (hnil : closed [])
    (happend : ∀ front back, closed front → closed back → closed (front ++ back))
    {test : ParseState → Bool} {step : ParseState → Reading}
    (hstep : ∀ state, test state = true → Quiet (step state) → closed (step state).shapes)
    {state : ParseState} {limit : Nat} (hquiet : Quiet (drawLoop test step state limit)) :
    closed (drawLoop test step state limit).shapes := by
  induction limit generalizing state with
  | zero => exact hnil
  | succ limit ih =>
    simp only [drawLoop] at hquiet ⊢
    by_cases ht : test state = true
    · rw [if_pos ht] at hquiet ⊢
      split at hquiet
      · next hv =>
        rw [if_pos hv]
        exact hstep state ht ⟨hquiet.kept, hquiet.silent⟩
      · next hv =>
        rw [if_neg hv]
        obtain ⟨hfirst, hrest⟩ := hquiet.of_andThen
        exact happend _ _ (hstep state ht hfirst) (ih hrest)
    · rw [if_neg ht]
      exact hnil

/-- A quiet element has nothing to take back. -/
theorem failures_eq_zero_of_recover (haccounts : ∀ rule, Accounts (drawRule rule))
    {element : Phrase Rule} {state : ParseState}
    (hquiet : Quiet ((recover element).draw drawRule state)) :
    (element.draw drawRule state).failures = 0 := by
  by_contra hf
  have hle := (Accounts.phrase haccounts element state).failures_le
  have hsilent := hquiet.silent
  simp only [draw, if_neg hf, skipped] at hsilent
  cases hreports : (element.draw drawRule state).reports with
  | nil =>
    rw [hreports] at hle
    exact hf (Nat.le_zero.mp hle)
  | cons first rest => simp [hreports] at hsilent

def IsSurveyed (condition : Kind → List Pattern → Bool) (holds : Kind → List Shape → Prop)
    (yields : Rule → Option Field × KindSet) (drawRule : Rule → ParseState → Reading)
    (phrase : Phrase Rule) : Prop :=
  ∀ ⦃here : Prospect⦄ ⦃paths : List Path⦄ ⦃state : ParseState⦄,
    phrase.survey condition yields here = some paths → here.Holds state.current →
    Quiet (phrase.draw drawRule state) → Surveyed holds paths (phrase.draw drawRule state)

section

variable {first second : Phrase Rule}

theorem IsSurveyed.expect (kind : Kind) (field : Option Field) :
    IsSurveyed condition holds yields drawRule (.expect kind field) := by
  intro here paths state h hhere hquiet
  obtain rfl := Option.some.inj h
  simp only [draw] at hquiet ⊢
  split at hquiet
  · next hk =>
    rw [if_pos hk]
    exact surveyed_taken (hhere.within (by simp [← hk, ParseState.kind])) field
  · cases hquiet.silent

theorem IsSurveyed.close (kind : Kind) :
    IsSurveyed condition holds yields drawRule (.close kind) := by
  intro here paths state h hhere hquiet
  obtain rfl := Option.some.inj h
  simp only [draw] at hquiet ⊢
  split at hquiet
  · next hk =>
    rw [if_pos hk]
    exact surveyed_taken (hhere.within (by simp [← hk, ParseState.kind])) none
  · cases hquiet.silent

theorem IsSurveyed.seq (hf : IsSurveyed condition holds yields drawRule first)
    (hs : IsSurveyed condition holds yields drawRule second) :
    IsSurveyed condition holds yields drawRule (.seq first second) := by
  intro here paths state h hhere hquiet
  obtain ⟨before, hbefore, hafter⟩ := Option.bind_eq_some_iff.mp h
  obtain ⟨hfirst, hsecond⟩ := hquiet.of_andThen
  obtain ⟨hmeets, path, hpath, hdescribes⟩ := hf hbefore hhere hfirst
  obtain ⟨part, hpart, hsub⟩ := exists_of_gather hafter hpath
  obtain ⟨more, hmore, rfl⟩ := Option.map_eq_some_iff.mp hpart
  exact Surveyed.andThen hmeets hdescribes (hs hmore hdescribes.next hsecond) hsub

/-- A path that fails ends there; the others go on with the second phrase. -/
theorem IsSurveyed.both (hf : IsSurveyed condition holds yields drawRule first)
    (hs : IsSurveyed condition holds yields drawRule second) :
    IsSurveyed condition holds yields drawRule (.both first second) := by
  intro here paths state h hhere hquiet
  obtain ⟨before, hbefore, hafter⟩ := Option.bind_eq_some_iff.mp h
  simp only [draw] at hquiet ⊢
  split at hquiet
  · next hv =>
    rw [if_pos hv]
    obtain ⟨hmeets, path, hpath, hdescribes⟩ := hf hbefore hhere hquiet
    obtain ⟨part, hpart, hsub⟩ := exists_of_gather hafter hpath
    rw [if_pos (hdescribes.verdict.symm.trans hv)] at hpart
    obtain rfl := Option.some.inj hpart
    exact ⟨hmeets, path, hsub (List.mem_singleton_self _), hdescribes⟩
  · next hv =>
    rw [if_neg hv]
    obtain ⟨hfirst, hsecond⟩ := hquiet.of_andThen
    obtain ⟨hmeets, path, hpath, hdescribes⟩ := hf hbefore hhere hfirst
    obtain ⟨part, hpart, hsub⟩ := exists_of_gather hafter hpath
    rw [if_neg fun hfailed => hv (hdescribes.verdict.trans hfailed)] at hpart
    obtain ⟨more, hmore, rfl⟩ := Option.map_eq_some_iff.mp hpart
    exact Surveyed.andThen hmeets hdescribes (hs hmore hdescribes.next hsecond) hsub

/-- The answer of the test is known at the front of either branch. -/
theorem IsSurveyed.branch (hf : IsSurveyed condition holds yields drawRule first)
    (hs : IsSurveyed condition holds yields drawRule second) (test : Test) :
    IsSurveyed condition holds yields drawRule (.branch test first second) := by
  intro here paths state h hhere hquiet
  obtain ⟨front, hfront, hrest⟩ := Option.bind_eq_some_iff.mp h
  obtain ⟨back, hback, heq⟩ := Option.bind_eq_some_iff.mp hrest
  obtain rfl := Option.some.inj heq
  dsimp only at hfront hback
  simp only [draw] at hquiet ⊢
  split at hquiet
  · next ht =>
    have hknown := hhere.assume ht
    rw [if_neg (by simp [hknown.not_isVoid])] at hfront
    rw [if_pos ht]
    exact (hf hfront hknown hquiet).mono (List.subset_append_left _ _)
  · next ht =>
    have hknown := hhere.assume (Bool.eq_false_iff.mpr ht)
    rw [if_neg (by simp [hknown.not_isVoid])] at hback
    rw [if_neg ht]
    exact (hs hback hknown hquiet).mono (List.subset_append_right _ _)

/-- The probe is not followed; either phrase may come next. -/
theorem IsSurveyed.look (hf : IsSurveyed condition holds yields drawRule first)
    (hs : IsSurveyed condition holds yields drawRule second) (probe : Phrase Rule) :
    IsSurveyed condition holds yields drawRule (.look probe first second) := by
  intro here paths state h hhere hquiet
  obtain ⟨front, hfront, hrest⟩ := Option.bind_eq_some_iff.mp h
  obtain ⟨back, hback, heq⟩ := Option.bind_eq_some_iff.mp hrest
  obtain rfl := Option.some.inj heq
  simp only [draw] at hquiet ⊢
  split at hquiet
  · next hc =>
    rw [if_pos hc]
    exact (hf hfront hhere hquiet.of_instead).instead (List.subset_append_left _ _)
  · next hc =>
    rw [if_neg hc]
    exact (hs hback hhere hquiet.of_instead).instead (List.subset_append_right _ _)

/-- The first phrase goes on with the paths of the body, the second one starts over. -/
theorem IsSurveyed.attempt {body : Phrase Rule}
    (hb : IsSurveyed condition holds yields drawRule body)
    (hf : IsSurveyed condition holds yields drawRule first)
    (hs : IsSurveyed condition holds yields drawRule second) :
    IsSurveyed condition holds yields drawRule (.attempt body first second) := by
  intro here paths state h hhere hquiet
  obtain ⟨tried, htried, hafter⟩ := Option.bind_eq_some_iff.mp h
  obtain ⟨kept, hkept, hlast⟩ := Option.bind_eq_some_iff.mp hafter
  obtain ⟨back, hback, heq⟩ := Option.bind_eq_some_iff.mp hlast
  obtain rfl := Option.some.inj heq
  simp only [draw] at hquiet ⊢
  split at hquiet
  · next hc =>
    rw [if_pos hc]
    obtain ⟨hbody, hrest⟩ := hquiet.of_andThen
    obtain ⟨hmeets, path, hpath, hdescribes⟩ := hb htried hhere hbody
    obtain ⟨part, hpart, hsub⟩ := exists_of_gather hkept hpath
    have hfits : path.verdict ≠ .failed := by
      rw [← hdescribes.verdict]
      simp only [Reading.isClean, Bool.and_eq_true, bne_iff_ne] at hc
      exact hc.1
    rw [if_neg hfits] at hpart
    obtain ⟨more, hmore, rfl⟩ := Option.map_eq_some_iff.mp hpart
    exact Surveyed.andThen hmeets hdescribes (hf hmore hdescribes.next hrest)
      (List.subset_append_of_subset_left _ hsub)
  · next hc =>
    rw [if_neg hc]
    exact (hs hback hhere hquiet.of_instead).instead (List.subset_append_right _ _)

/-- The rounds lie side by side, in any number. -/
theorem IsSurveyed.loop {body : Phrase Rule}
    (hb : IsSurveyed condition holds yields drawRule body) (test : Test) :
    IsSurveyed condition holds yields drawRule (.loop test body) := by
  intro here paths state h _ hquiet
  obtain ⟨rounds, hrounds, hafter⟩ := Option.bind_eq_some_iff.mp h
  obtain ⟨nodes, hnodes, heq⟩ := Option.bind_eq_some_iff.mp hafter
  obtain rfl := Option.some.inj heq
  have hclosed := drawLoop_closed
    (fun shapes => Shape.AllOf holds shapes ∧ (Pattern.many nodes).Covers shapes)
    ⟨trivial, by simp [Pattern.Covers]⟩
    (fun _ _ hfront hback => ⟨Shape.allOf_append.mpr ⟨hfront.1, hback.1⟩,
      Pattern.covers_many_append hfront.2 hback.2⟩)
    (fun state ht hround => by
      obtain ⟨hmeets, path, hpath, hdescribes⟩ :=
        hb hrounds ((Prospect.holds_vague state.current).assume ht) hround
      obtain ⟨part, hpart, hsub⟩ := exists_of_gather hnodes hpath
      exact ⟨hmeets, (hdescribes.parts.covers_many hpart).many_mono hsub⟩)
    hquiet
  refine ⟨hclosed.1, _, List.mem_singleton_self _, drawLoop_verdict _ _ _ _, ?_,
    Prospect.holds_vague _⟩
  exact Pattern.fits_singleton.mpr hclosed.2

/-- Where the patterns of a node meet the condition, its children do what the condition stands for.
-/
theorem IsSurveyed.node {body : Phrase Rule}
    (hcondition : ∀ kind parts children, condition kind parts = true →
      Pattern.Fits parts children → holds kind children)
    (hb : IsSurveyed condition holds yields drawRule body) :
    IsSurveyed condition holds yields drawRule (.node body) := by
  intro here paths state h hhere hquiet
  obtain ⟨before, hbefore, heq⟩ := Option.bind_eq_some_iff.mp h
  split at heq
  · next hall =>
    obtain rfl := Option.some.inj heq
    obtain ⟨hmeets, path, hpath, hdescribes⟩ := hb hbefore hhere hquiet.of_close
    refine ⟨?_, _, List.mem_map_of_mem hpath, hdescribes.close⟩
    have hcheck := List.all_eq_true.mp hall path hpath
    simp only [draw, Reading.close]
    split
    · next kind hverdict =>
      rw [Path.meets, ← hdescribes.verdict, hverdict] at hcheck
      exact ⟨⟨hcondition _ _ _ hcheck hdescribes.parts, hmeets⟩, trivial⟩
    · exact hmeets
  · cases heq

/-- A slot may depend on the lookahead, so each path is split by what is known of it. -/
theorem IsSurveyed.slot {body : Phrase Rule}
    (hb : IsSurveyed condition holds yields drawRule body) (choice : Kind → Field) :
    IsSurveyed condition holds yields drawRule (.slot choice body) := by
  intro here paths state h hhere hquiet
  obtain ⟨before, hbefore, hafter⟩ := Option.bind_eq_some_iff.mp h
  obtain ⟨hmeets, path, hpath, hdescribes⟩ := hb hbefore hhere hquiet.of_fill
  obtain ⟨part, hpart, hsub⟩ := exists_of_gather hafter hpath
  obtain ⟨filled, hfilled, hdescribes'⟩ := hdescribes.fill hpart
  refine ⟨?_, filled, hsub hfilled, hdescribes'⟩
  simp only [draw, Reading.fill]
  split
  · exact (Shape.allOf_fillLast _ _).mpr hmeets
  · exact hmeets

/-- By induction on the rounds. The node so far is described by the head before the first of them,
and by a round behind it. -/
theorem IsSurveyed.chain {head body : Phrase Rule}
    (hcondition : ∀ kind parts children, condition kind parts = true →
      Pattern.Fits parts children → holds kind children)
    (hh : IsSurveyed condition holds yields drawRule head)
    (hb : IsSurveyed condition holds yields drawRule body) (test : Test) (choice : Kind → Field) :
    IsSurveyed condition holds yields drawRule (.chain head test choice body) := by
  intro here paths state h hhere hquiet
  obtain ⟨heads, hheads, hafter⟩ := Option.bind_eq_some_iff.mp h
  obtain ⟨bases, hbases, hlater⟩ := Option.bind_eq_some_iff.mp hafter
  obtain ⟨rounds, hrounds, heq⟩ := Option.bind_eq_some_iff.mp hlater
  dsimp only at heq
  split at heq
  case isFalse => cases heq
  next hall =>
  obtain rfl := Option.some.inj heq
  obtain ⟨hmeets, path, hpath, hdescribes⟩ := hh hheads hhere (quiet_of_chain hquiet)
  by_cases hverdict : (head.draw drawRule state).verdict = .node
  · -- The node so far meets the condition and is of a kind that the head or a round makes.
    let kinds := KindSet.unionAll (bases ++ rounds.map (·.2.chosen))
    let fine : Lexer → Shape → Prop := fun _ shape =>
      shape.All holds ∧ ∃ kind children, shape = .node kind none children ∧
        kinds.contains kind = true
    -- a round may start in front of any token that the test lets pass
    have hround : ∀ state shape kind, fine state.lexer shape → test.holds state = true →
        Quiet (body.draw drawRule state) → (body.draw drawRule state).verdict = .chose kind →
        fine (body.draw drawRule state).lexer (.node kind none
          (shape.withField (choice state.kind) :: (body.draw drawRule state).shapes)) := by
      rintro state shape kind ⟨hshape, inner, below, rfl, hinner⟩ ht hround hchose
      obtain ⟨entry, hentry, hslot, hnext⟩ :=
        ((Prospect.holds_vague state.current).assume ht).splits choice
      obtain ⟨part, hpart, hsub⟩ := exists_of_gather hrounds hentry
      obtain ⟨more, hmore, rfl⟩ := Option.map_eq_some_iff.mp hpart
      obtain ⟨hbelow, path, hpath, hdescribes⟩ := hb hmore hnext hround
      have hin := hsub (List.mem_map_of_mem hpath)
      have hsettled : path.verdict = .chose kind := hdescribes.verdict.symm.trans hchose
      have hcheck := List.all_eq_true.mp hall _ hin
      simp only [Path.meets, hsettled] at hcheck
      refine ⟨⟨hcondition _ _ _ hcheck ?_, ?_, hbelow⟩, kind, _, rfl, ?_⟩
      · have hfront : Pattern.Fits [.node kinds (some entry.1) [.any]]
            [(Shape.node inner none below).withField (choice state.kind)] := by
          rw [Pattern.fits_singleton, Pattern.Covers, hslot]
          exact ⟨inner, below, rfl, hinner, Pattern.fits_any below⟩
        exact hfront.append hdescribes.parts
      · exact (Shape.all_withField _ _).mpr hshape
      · refine KindSet.contains_unionAll (List.mem_append_right _ (List.mem_map_of_mem hin)) ?_
        simp [Path.chosen, hsettled]
    obtain ⟨part, hpart, hsub⟩ := exists_of_gather hbases hpath
    obtain ⟨base, hbase, kind, children, hshapes, hkind⟩ := hdescribes.base hpart hverdict
    rw [hshapes] at hmeets
    obtain ⟨last, hnode, hlast, ⟨hmeets', kind', children', rfl, hkind'⟩, hend⟩ :=
      chain_induction fine hquiet hverdict hshapes ⟨hmeets.1, kind, children, rfl,
        KindSet.contains_unionAll (List.mem_append_left _ (hsub hbase)) hkind⟩ hround
    refine ⟨?_, _, List.mem_cons_self, hnode, ?_, (Prospect.holds_vague _).assume hend⟩
    · rw [hlast]
      exact ⟨hmeets', trivial⟩
    · rw [hlast, Path.making, Pattern.fits_singleton, Pattern.Covers]
      exact ⟨kind', children', rfl, hkind', Pattern.fits_any children'⟩
  · simp only [draw, if_neg hverdict] at hquiet ⊢
    have hmem : path ∈ heads.filter (·.verdict != .node) := by
      refine List.mem_filter.mpr ⟨hpath, ?_⟩
      rw [bne_iff_ne, ← hdescribes.verdict]
      exact hverdict
    exact ⟨hmeets, _, List.mem_cons_of_mem _ (List.mem_map_of_mem hmem), rfl, hdescribes.parts,
      hdescribes.next⟩

theorem IsSurveyed.recover {element : Phrase Rule}
    (haccounts : ∀ rule, Accounts (drawRule rule))
    (he : IsSurveyed condition holds yields drawRule element) :
    IsSurveyed condition holds yields drawRule (.recover element) := by
  intro here paths state h hhere hquiet
  obtain ⟨before, hbefore, heq⟩ := Option.bind_eq_some_iff.mp h
  obtain rfl := Option.some.inj heq
  have hzero := failures_eq_zero_of_recover haccounts hquiet
  simp only [draw, if_pos hzero] at hquiet ⊢
  obtain ⟨hmeets, path, hpath, hdescribes⟩ := he hbefore hhere ⟨hquiet.kept, hquiet.silent⟩
  exact ⟨hmeets, _, List.mem_map_of_mem hpath, rfl, hdescribes.parts, hdescribes.next⟩

end

/-- What a survey says of a phrase is true, if what is listed for the rules is. -/
theorem isSurveyed
    (hcondition : ∀ kind parts children, condition kind parts = true →
      Pattern.Fits parts children → holds kind children)
    (haccounts : ∀ rule, Accounts (drawRule rule)) (hrules : RulesYield holds yields drawRule)
    (phrase : Phrase Rule) : IsSurveyed condition holds yields drawRule phrase := by
  induction phrase with
  | done | reject | choose =>
    intro here paths state h hhere hquiet
    obtain rfl := Option.some.inj h
    exact surveyed_nothing rfl ⟨rfl, Pattern.fits_nil, hhere⟩
  | take field =>
    intro here paths state h hhere hquiet
    obtain rfl := Option.some.inj h
    exact surveyed_taken hhere field
  | missing | refuse | blame =>
    intro here paths state h hhere hquiet
    cases hquiet.silent
  | demand kind =>
    intro here paths state h hhere hquiet
    obtain rfl := Option.some.inj h
    have hk : state.kind = kind := by simpa [draw] using hquiet.kept
    refine surveyed_nothing rfl ⟨rfl, Pattern.fits_nil, hhere.within ?_⟩
    simp [← hk, ParseState.kind]
  | relex mode =>
    intro here paths state h hhere hquiet
    obtain rfl := Option.some.inj h
    exact surveyed_nothing rfl ⟨rfl, Pattern.fits_nil, Prospect.holds_vague _⟩
  | expect kind field => exact IsSurveyed.expect kind field
  | close kind => exact IsSurveyed.close kind
  | seq first second hf hs => exact hf.seq hs
  | both first second hf hs => exact hf.both hs
  | branch test yes no hf hs => exact hf.branch hs test
  | look probe yes no _ hf hs => exact hf.look hs probe
  | attempt body yes no hb hf hs => exact hb.attempt hf hs
  | loop test body hb => exact hb.loop test
  | node body hb => exact hb.node hcondition
  | slot choice body hb => exact hb.slot choice
  | chain head test choice body hh hb => exact hh.chain hcondition hb test choice
  | recover element he => exact he.recover haccounts
  | absorb body hb =>
    intro here paths state h hhere hquiet
    obtain ⟨hmeets, path, hpath, hdescribes⟩ := hb h hhere ⟨hquiet.kept, hquiet.silent⟩
    exact ⟨hmeets, path, hpath, hdescribes.1, hdescribes.2, hdescribes.3⟩
  | nested body hb =>
    intro here paths state h hhere hquiet
    have hdraw := draw_nested_of_quiet hquiet
    rw [hdraw] at hquiet ⊢
    exact hb h hhere hquiet
  | call rule =>
    intro here paths state h hhere hquiet
    obtain rfl := Option.some.inj h
    exact hrules rule state hquiet

/-- Whether a phrase makes a single node of the kinds in the slot, whatever path it takes, and all
its nodes meet the condition. -/
def conforms (condition : Kind → List Pattern → Bool) (yields : Rule → Option Field × KindSet)
    (phrase : Phrase Rule) (field : Option Field) (kinds : KindSet) : Bool :=
  (phrase.survey condition yields .vague).any fun paths => paths.all fun path =>
    match path.verdict, path.parts with
    | .node, [.node made place _] => made.isSubset kinds && place == field
    | _, _ => false

/-- A phrase that conforms makes one node, described by its slot and its kinds. -/
theorem IsSurveyed.of_conforms {phrase : Phrase Rule}
    (h : IsSurveyed condition holds yields drawRule phrase) {field : Option Field}
    {kinds : KindSet} (hc : phrase.conforms condition yields field kinds = true)
    {state : ParseState} (hquiet : Quiet (phrase.draw drawRule state)) :
    Surveyed holds [.making kinds field .vague] (phrase.draw drawRule state) := by
  rw [conforms, Option.any_eq_true] at hc
  obtain ⟨paths, hsurvey, hall⟩ := hc
  obtain ⟨hmeets, path, hpath, hdescribes⟩ := h hsurvey (Prospect.holds_vague _) hquiet
  have hcheck := List.all_eq_true.mp hall path hpath
  split at hcheck
  · next made place below hv hp =>
    rw [Bool.and_eq_true, beq_iff_eq] at hcheck
    obtain ⟨hsub, rfl⟩ := hcheck
    have hparts := hdescribes.parts
    rw [hp, Pattern.fits_singleton, Pattern.Covers] at hparts
    obtain ⟨kind, children, hshapes, hkind, -⟩ := hparts
    refine ⟨hmeets, _, List.mem_singleton_self _, hdescribes.verdict.trans hv, ?_,
      Prospect.holds_vague _⟩
    rw [Path.making, Pattern.fits_singleton, Pattern.Covers]
    exact ⟨kind, children, hshapes, KindSet.contains_of_isSubset hsub hkind,
      Pattern.fits_any children⟩
  · cases hcheck

/-- If every rule conforms to what is listed for it, its quiet readings do. -/
theorem rulesYield_drawRule {grammar : Rule → Phrase Rule}
    (hcondition : ∀ kind parts children, condition kind parts = true →
      Pattern.Fits parts children → holds kind children)
    (hgrammar : ∀ rule, (grammar rule).conforms condition yields (yields rule).1
      (yields rule).2 = true) (budget : Nat) :
    RulesYield holds yields (Phrase.drawRule grammar budget) := by
  induction budget with
  | zero => exact fun rule state hquiet => absurd hquiet.kept Bool.noConfusion
  | succ budget ih =>
    intro rule state hquiet
    have hphrase := isSurveyed hcondition (accounts_drawRule grammar budget) ih (grammar rule)
    exact hphrase.of_conforms (hgrammar rule) hquiet

end Phrase

end ScriptTree

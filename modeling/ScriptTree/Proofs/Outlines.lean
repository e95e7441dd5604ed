import ScriptTree.Proofs.Tree.Document
import ScriptTree.Proofs.Tree.Shift
import ScriptTree.Proofs.TreeTables

/-!
The JSON form of a tree loses nothing. Whoever visits it can write out the text, passage by passage,
and can take the steps that built the tree, so trees with the same JSON form are the same. Which
layout stands in front of a token and which behind it is not written down: it follows from the
offsets, as long as no piece is empty.
-/

namespace ScriptTree

namespace Passage

/-- Passages lie side by side between two offsets, each from where the one before it stops. -/
def Chain : Nat → List Passage → Nat → Prop
  | start, [], stop => start = stop
  | start, passage :: rest, stop =>
    passage.span.start = start ∧ start ≤ passage.span.stop ∧ Chain passage.span.stop rest stop

theorem Chain.append {xs ys : List Passage} {start middle stop : Nat} (h : Chain start xs middle)
    (h' : Chain middle ys stop) : Chain start (xs ++ ys) stop := by
  induction xs generalizing start with
  | nil =>
    obtain rfl : start = middle := h
    exact h'
  | cons passage rest ih =>
    obtain ⟨hstart, hle, hrest⟩ := h
    exact ⟨hstart, hle, ih hrest⟩

def before (own : Passage) (extras : List (TriviaKind × Passage)) : List (TriviaKind × Passage) :=
  extras.filter fun extra => extra.2.span.stop ≤ own.span.start

def behind (own : Passage) (extras : List (TriviaKind × Passage)) : List (TriviaKind × Passage) :=
  extras.filter fun extra => own.span.start < extra.2.span.stop

end Passage

namespace Mark

def passages : Mark → List Passage
  | .token _ _ own extras =>
    (own.before extras).map Prod.snd ++ own :: (own.behind extras).map Prod.snd
  | _ => []

def piece (extra : TriviaKind × Passage) : Piece :=
  ⟨extra.1, extra.2.span.size⟩

def step : Mark → BuildStep
  | .enter kind field => .start kind field
  | .token kind field own extras =>
    .token ((own.before extras).map piece) kind own.span.size ((own.behind extras).map piece) field
  | .leave => .finish

end Mark

def Json.passages (json : Json) : List Passage :=
  json.marks.flatMap Mark.passages

def Json.steps (json : Json) : List BuildStep :=
  json.marks.map Mark.step

namespace Span

/-- A stretch between two boundaries cuts the text into three. -/
theorem exists_cut {text : String} {start stop : Nat} (hle : start ≤ stop)
    (hstart : isBoundary text start = true) (hstop : isBoundary text stop = true) :
    ∃ before middle after, text.toList = before ++ middle ++ after ∧ byteCount before = start ∧
      byteCount before + byteCount middle = stop := by
  obtain ⟨before, rest, htext, hbefore⟩ := isBoundary_iff.mp hstart
  obtain ⟨front, after, htext', hfront⟩ := isBoundary_iff.mp hstop
  obtain ⟨middle, rfl, -⟩ := exists_between (htext.symm.trans htext') (by omega)
  rw [byteCount_append] at hfront
  exact ⟨before, middle, after, htext', hbefore, hfront⟩

/-- Two stretches side by side read as one. -/
theorem read?_append {text : String} {start middle stop : Nat} (hle : start ≤ middle)
    (hle' : middle ≤ stop) (hstart : isBoundary text start = true)
    (hmiddle : isBoundary text middle = true) (hstop : isBoundary text stop = true) :
    (⟨start, stop⟩ : Span).read? text =
      some ((⟨start, middle⟩ : Span).read text ++ (⟨middle, stop⟩ : Span).read text) := by
  obtain ⟨before, first, rest, hcut, rfl, rfl⟩ := exists_cut hle hstart hmiddle
  obtain ⟨front, after, htext, hfront⟩ := isBoundary_iff.mp hstop
  obtain ⟨second, rfl, -⟩ :=
    exists_between (hcut.symm.trans htext) (by rw [byteCount_append]; omega)
  have hfirst := read?_of_split hcut
  have hsecond := read?_of_split htext
  have hwhole := read?_of_split (show text.toList = before ++ (first ++ second) ++ after by
    rw [htext, List.append_assoc before])
  simp only [byteCount_append] at hfront hsecond hwhole
  rw [← hfront, read, read, hfirst, hsecond, Nat.add_assoc, hwhole, String.ofList_append]
  rfl

theorem isBoundary_zero (text : String) : isBoundary text 0 = true :=
  isBoundary_of_split (List.nil_append text.toList).symm

/-- All of a text reads as the text. -/
theorem read?_whole (text : String) : (⟨0, text.utf8ByteSize⟩ : Span).read? text = some text := by
  have hsplit : text.toList = [] ++ text.toList ++ [] := by simp
  have hread := read?_of_split hsplit
  rw [utf8ByteSize_eq_byteCount]
  simpa using hread

end Span

namespace Passage

structure Cuts (text : String) (passage : Passage) : Prop where
  stop : Span.isBoundary text passage.span.stop = true
  text : passage.text = passage.span.read text

theorem Cuts.read? {text : String} {passage : Passage} (h : passage.Cuts text)
    (hstart : Span.isBoundary text passage.span.start = true)
    (hle : passage.span.start ≤ passage.span.stop) :
    passage.span.read? text = some passage.text := by
  rw [h.text, Span.read, Span.read?]
  simp [hstart, h.stop, hle]

/-- Passages side by side read as one stretch of the text, and each reads as its characters. -/
theorem Chain.read? {text : String} {passages : List Passage} {start stop : Nat}
    (h : Chain start passages stop) (hstart : Span.isBoundary text start = true)
    (hcuts : ∀ passage ∈ passages, passage.Cuts text) :
    start ≤ stop ∧ Span.isBoundary text stop = true ∧
      (⟨start, stop⟩ : Span).read? text = some (String.join (passages.map (·.text))) ∧
      ∀ passage ∈ passages, passage.span.read? text = some passage.text := by
  induction passages generalizing start with
  | nil =>
    obtain rfl : start = stop := h
    obtain ⟨before, middle, after, htext, rfl, hsize⟩ :=
      Span.exists_cut (Nat.le_refl _) hstart hstart
    have hmiddle : middle = [] := by
      by_contra hne
      have hpos := byteCount_pos hne
      omega
    subst hmiddle
    exact ⟨Nat.le_refl _, hstart, Span.read?_of_split htext, by simp⟩
  | cons passage rest ih =>
    obtain ⟨rfl, hle, hrest⟩ := h
    have hpassage := hcuts passage List.mem_cons_self
    have hmore := fun other hmem => hcuts other (List.mem_cons_of_mem passage hmem)
    obtain ⟨hle', hstop, hread, hall⟩ := ih hrest hpassage.stop hmore
    have hjoin : (⟨passage.span.stop, stop⟩ : Span).read text =
        String.join (rest.map (·.text)) := by
      rw [Span.read, hread]
      rfl
    have hfirst := hpassage.read? hstart hle
    refine ⟨Nat.le_trans hle hle', hstop, ?_, List.forall_mem_cons.mpr ⟨hfirst, hall⟩⟩
    rw [Span.read?_append hle hle' hstart hpassage.stop hstop, hjoin, List.map_cons,
      String.join_cons, hpassage.text]

end Passage

namespace Tree

/-- No piece of layout is empty, and none ends inside a character. -/
def HasWholeLayout (tree : Tree) : Prop :=
  ∀ piece ∈ tree.trivia.toList,
    piece.span.start < piece.span.stop ∧ Span.isBoundary tree.text piece.span.stop = true

theorem HasLayout.mem_trivia {tree : Tree} {run : Run} {entries : List TriviaEntry}
    (h : tree.HasLayout run entries) {entry : TriviaEntry} (hmem : entry ∈ entries) :
    entry ∈ tree.trivia.toList := by
  have hsome : some entry ∈ run.positions.map (tree.trivia[·]?) := by
    rw [h]
    exact List.mem_map_of_mem hmem
  obtain ⟨position, -, hentry⟩ := List.mem_map.mp hsome
  exact Array.mem_toList_iff.mpr (Array.mem_of_getElem? hentry)

end Tree

/-- Layout lies between the offset it starts from and the one it reaches. -/
theorem within_entriesFrom {offset : Nat} {pieces : List Piece} {entry : TriviaEntry}
    (h : entry ∈ entriesFrom offset pieces) :
    offset ≤ entry.span.start ∧ entry.span.stop ≤ offset + Piece.totalSize pieces := by
  induction pieces generalizing offset with
  | nil => cases h
  | cons piece rest ih =>
    rw [Piece.totalSize_cons]
    rcases List.mem_cons.mp h with rfl | hmem
    · simp only [Span.sized]
      omega
    · obtain ⟨hstart, hstop⟩ := ih hmem
      omega

/-- Layout is laid down side by side. -/
theorem Tree.chain_entriesFrom (tree : Tree) (offset : Nat) (pieces : List Piece) :
    Passage.Chain offset ((entriesFrom offset pieces).map fun entry => (tree.shownEntry entry).2)
      (offset + Piece.totalSize pieces) := by
  induction pieces generalizing offset with
  | nil => rfl
  | cons piece rest ih =>
    rw [Piece.totalSize_cons, ← Nat.add_assoc]
    exact ⟨rfl, Nat.le_add_right _ _, ih _⟩

namespace Shape.Sits

variable {tree : Tree} {home : Option NodeId} {token : Token} {field : Option Field} {site : Site}

/-- The layout in front of a token stops where the token starts, or before. The layout behind it
stops past its start, since no piece is empty. -/
theorem around_leaf (h : (leaf token field).Sits tree home site) (hlayout : tree.HasWholeLayout) :
    (∀ entry ∈ tree.leading site.token, entry.span.stop ≤ (tree.leaf site.token).span.start) ∧
      ∀ entry ∈ tree.trailing site.token, (tree.leaf site.token).span.start < entry.span.stop := by
  obtain ⟨parent, -, hleaf, hleading, htrailing⟩ := h
  have hstart : (tree.leaf site.token).span.start =
      site.offset + Piece.totalSize token.leading := by
    rw [Tree.leaf_eq hleaf]
    rfl
  rw [Tree.leading, Tree.trailing, Tree.leaf_eq hleaf, leafAt, hleading.entries, htrailing.entries]
  rw [Tree.leaf_eq hleaf] at hstart
  constructor
  · intro entry hmem
    exact (within_entriesFrom hmem).2
  · intro entry hmem
    have hfrom := (within_entriesFrom hmem).1
    have hsize := (hlayout entry (htrailing.mem_trivia hmem)).1
    show site.offset + Piece.totalSize token.leading < entry.span.stop
    omega

/-- A token and the layout around it lie side by side over what the token covers. -/
theorem chain_leaf (h : (leaf token field).Sits tree home site) :
    Passage.Chain site.offset
      ((tree.leading site.token).map (fun entry => (tree.shownEntry entry).2) ++
        ⟨(tree.leaf site.token).span, tree.leafText site.token⟩ ::
          (tree.trailing site.token).map fun entry => (tree.shownEntry entry).2)
      (site.past (leaf token field)).offset := by
  obtain ⟨parent, -, hleaf, hleading, htrailing⟩ := h
  let first := site.offset + Piece.totalSize token.leading
  have hfront := tree.chain_entriesFrom site.offset token.leading
  have hback := tree.chain_entriesFrom (first + token.span.size) token.trailing
  have hspan : (tree.leaf site.token).span = Span.sized first token.span.size := by
    rw [Tree.leaf_eq hleaf]
    rfl
  have hstop : (site.past (leaf token field)).offset =
      first + token.span.size + Piece.totalSize token.trailing := by
    simp only [Site.past, tokens, widthOf_singleton, Token.width, first]
    omega
  rw [hstop, hspan, Tree.leading, Tree.trailing, Tree.leaf_eq hleaf, leafAt, hleading.entries,
    htrailing.entries]
  refine hfront.append ⟨rfl, Nat.le_add_right _ _, hback⟩

end Shape.Sits

namespace Builder

def CutsWhole (builder : Builder) : Prop :=
  ∀ leaf ∈ builder.leaves, Span.isBoundary builder.text leaf.span.stop = true

theorem isBoundary_of_step {builder after : Builder} {leading trailing : List Piece} {kind : Kind}
    {size : Nat} {field : Option Field}
    (h : builder.step (.token leading kind size trailing field) = .ok after) :
    Span.isBoundary builder.text (builder.offset + Piece.totalSize leading + size) = true := by
  simp only [step, token, layTrivia_entries] at h
  split at h
  · cases h
  split at h
  · next hboundary => exact hboundary
  · cases h

/-- A step lays down a token that ends at a boundary, or none. -/
theorem cutsWhole_step {builder after : Builder} {step : BuildStep}
    (hstep : builder.step step = .ok after) (h : builder.CutsWhole) : after.CutsWhole := by
  cases step with
  | start kind field =>
    rw [eq_entered_of_step hstep]
    exact h
  | finish =>
    obtain ⟨inner, outer, -, rfl⟩ := eq_left_of_step hstep
    exact h
  | token leading kind size trailing field =>
    have hboundary := isBoundary_of_step hstep
    obtain ⟨inner, outer, -, rfl⟩ := eq_laid_of_step hstep
    intro leaf hmem
    rcases Array.mem_push.mp hmem with hmem | rfl
    · exact h leaf hmem
    · exact hboundary

theorem cutsWhole_run {builder after : Builder} {steps : List BuildStep}
    (hrun : builder.run steps = .ok after) (h : builder.CutsWhole) : after.CutsWhole := by
  induction steps generalizing builder with
  | nil =>
    obtain rfl := Except.ok.inj hrun
    exact h
  | cons step rest ih =>
    rw [← List.singleton_append] at hrun
    obtain ⟨middle, hstep, hrest⟩ := run_append_ok hrun
    rw [run_singleton] at hstep
    exact ih hrest (cutsWhole_step hstep h)

end Builder

theorem Tree.leaf_default {tree : Tree} {id : TokenId} (hid : ¬ id < tree.leafCount) :
    tree.leaf id = default := by
  have hnone : tree.leaves[id]? = none := Array.getElem?_eq_none (Nat.not_lt.mp hid)
  rw [leaf, Array.getD_eq_getD_getElem?, hnone]
  rfl

/-- Every token of a tree that is built ends at a boundary of the text. -/
theorem Tree.isBoundary_leaf {text : String} {steps : List BuildStep} {tree : Tree}
    (h : Tree.build text steps = .ok tree) (id : TokenId) :
    Span.isBoundary tree.text (tree.leaf id).span.stop = true := by
  obtain ⟨after, hrun, -, -, -, rfl⟩ := Tree.ends_of_assemble (Tree.assemble_of_build h)
  have hcuts : after.CutsWhole :=
    Builder.cutsWhole_run hrun (by simp [Builder.CutsWhole, Builder.empty])
  by_cases hid : id < after.tables.leafCount
  · have hleaf := Array.getElem?_eq_getElem hid
    rw [Tree.leaf_eq hleaf]
    exact hcuts _ (Array.getElem_mem hid)
  · rw [Tree.leaf_default hid]
    exact Span.isBoundary_zero _

namespace Tree.Houses

variable {tree : Tree} {whole : Shape}

/-- A token stands for a leaf, or it is not there and has no layout. -/
theorem sits_leaf (h : tree.Houses whole) (id : TokenId) :
    (∃ home token field site, (Shape.leaf token field).Sits tree home site ∧ site.token = id) ∨
      tree.leading id = [] ∧ tree.trailing id = [] := by
  by_cases hid : id < tree.leafCount
  · obtain ⟨home, shape, site, hpart, helement⟩ := h.exists_part (.token id) hid
    cases shape with
    | node kind field children => cases helement
    | leaf token field =>
      exact Or.inl ⟨home, token, field, site, hpart.sits h.sits, Element.token.inj helement⟩
  · rw [Tree.leading, Tree.trailing, Tree.leaf_default hid]
    exact Or.inr ⟨rfl, rfl⟩

/-- The layout around a token is in the table of layout. -/
theorem mem_trivia (h : tree.Houses whole) {id : TokenId} {entry : TriviaEntry}
    (hmem : entry ∈ tree.leading id ++ tree.trailing id) : entry ∈ tree.trivia.toList := by
  rcases h.sits_leaf id with ⟨home, token, field, site, hsits, rfl⟩ | ⟨hleading, htrailing⟩
  · obtain ⟨parent, -, hleaf, hleading, htrailing⟩ := hsits
    rw [Tree.leading, Tree.trailing, Tree.leaf_eq hleaf, Shape.leafAt, hleading.entries,
      htrailing.entries] at hmem
    rcases List.mem_append.mp hmem with hmem | hmem
    · exact hleading.mem_trivia hmem
    · exact htrailing.mem_trivia hmem
  · rw [hleading, htrailing] at hmem
    cases hmem

/-- The offsets tell which layout stands in front of a token and which behind it. -/
theorem split_extras (h : tree.Houses whole) (hlayout : tree.HasWholeLayout) (id : TokenId) :
    let own : Passage := ⟨(tree.leaf id).span, tree.leafText id⟩
    let extras := (tree.leading id ++ tree.trailing id).map tree.shownEntry
    own.before extras = (tree.leading id).map tree.shownEntry ∧
      own.behind extras = (tree.trailing id).map tree.shownEntry := by
  intro own extras
  have haround : (∀ entry ∈ tree.leading id, entry.span.stop ≤ own.span.start) ∧
      ∀ entry ∈ tree.trailing id, own.span.start < entry.span.stop := by
    rcases h.sits_leaf id with ⟨home, token, field, site, hsits, rfl⟩ | ⟨hleading, htrailing⟩
    · exact hsits.around_leaf hlayout
    · rw [hleading, htrailing]
      simp
  obtain ⟨hleading, htrailing⟩ := haround
  have hfront : ∀ extra ∈ (tree.leading id).map tree.shownEntry,
      extra.2.span.stop ≤ own.span.start := by
    intro extra hmem
    obtain ⟨entry, hentry, rfl⟩ := List.mem_map.mp hmem
    exact hleading entry hentry
  have hback : ∀ extra ∈ (tree.trailing id).map tree.shownEntry,
      own.span.start < extra.2.span.stop := by
    intro extra hmem
    obtain ⟨entry, hentry, rfl⟩ := List.mem_map.mp hmem
    exact htrailing entry hentry
  have hextras : extras = (tree.leading id).map tree.shownEntry ++
      (tree.trailing id).map tree.shownEntry := List.map_append
  constructor
  · rw [hextras, Passage.before, List.filter_append,
      List.filter_eq_self.mpr (by simpa using hfront),
      List.filter_eq_nil_iff.mpr (by simpa using hback), List.append_nil]
  · rw [hextras, Passage.behind, List.filter_append,
      List.filter_eq_nil_iff.mpr (by simpa using hfront),
      List.filter_eq_self.mpr (by simpa using hback), List.nil_append]

/-- A visitor takes the steps that a walk shows. -/
theorem step_mark (h : tree.Houses whole) (hlayout : tree.HasWholeLayout) (visit : Visit) :
    (tree.mark visit).step = tree.stepOf visit := by
  cases visit with
  | enter id => rfl
  | leave id => rfl
  | token id =>
    obtain ⟨hbefore, hbehind⟩ := h.split_extras hlayout id
    rw [mark, Mark.step, hbefore, hbehind, List.map_map, List.map_map]
    rfl

/-- A visitor writes a token out between the layout in front of it and the layout behind it. -/
theorem passages_mark (h : tree.Houses whole) (hlayout : tree.HasWholeLayout) (id : TokenId) :
    (tree.mark (.token id)).passages =
      (tree.leading id).map (fun entry => (tree.shownEntry entry).2) ++
        ⟨(tree.leaf id).span, tree.leafText id⟩ ::
          (tree.trailing id).map fun entry => (tree.shownEntry entry).2 := by
  obtain ⟨hbefore, hbehind⟩ := h.split_extras hlayout id
  rw [mark, Mark.passages, hbefore, hbehind, List.map_map, List.map_map]
  rfl

/-- Whatever a visitor writes out stands in the text. -/
theorem cuts_mark (h : tree.Houses whole) (hlayout : tree.HasWholeLayout)
    (hleaves : ∀ id, Span.isBoundary tree.text (tree.leaf id).span.stop = true) (visit : Visit) :
    ∀ passage ∈ (tree.mark visit).passages, passage.Cuts tree.text := by
  cases visit with
  | enter id => simp [mark, Mark.passages]
  | leave id => simp [mark, Mark.passages]
  | token id =>
    have hentry : ∀ entry ∈ tree.leading id ++ tree.trailing id,
        (tree.shownEntry entry).2.Cuts tree.text := by
      intro entry hmem
      exact ⟨(hlayout entry (h.mem_trivia hmem)).2, rfl⟩
    intro passage hmem
    rw [h.passages_mark hlayout, List.mem_append, List.mem_cons, List.mem_map, List.mem_map] at hmem
    rcases hmem with ⟨entry, hmem, rfl⟩ | rfl | ⟨entry, hmem, rfl⟩
    · exact hentry entry (List.mem_append_left _ hmem)
    · exact ⟨hleaves id, rfl⟩
    · exact hentry entry (List.mem_append_right _ hmem)

end Tree.Houses

namespace Shape

variable {tree : Tree} {whole : Shape}

mutual

/-- What a visitor writes out of a shape lies side by side over what the shape covers. -/
theorem Sits.chain_visits (h : tree.Houses whole) (hlayout : tree.HasWholeLayout) :
    ∀ {shape : Shape} {home : Option NodeId} {site : Site}, shape.Sits tree home site →
    Passage.Chain site.offset
      ((shape.visits (fun _ => false) site).flatMap fun visit => (tree.mark visit).passages)
      (site.past shape).offset
  | .leaf token field, home, site, hsits => by
    have hchain := hsits.chain_leaf
    rw [← h.passages_mark hlayout] at hchain
    simpa only [visits, List.flatMap_cons, List.flatMap_nil, List.append_nil] using hchain
  | .node kind field children, home, site, hsits => by
    have hinside := SitsAll.chain_visits h hlayout hsits.2
    have hleave : (tree.mark (.leave site.node)).passages = [] := rfl
    have henter : (tree.mark (.enter site.node)).passages = [] := rfl
    simpa [visits, hleave, henter, Site.past, tokens, Site.inside, Site.pastAll] using hinside

/-- By induction on the shapes: the passages of each of them lie side by side from where those
before it have stopped. -/
theorem SitsAll.chain_visits (h : tree.Houses whole) (hlayout : tree.HasWholeLayout) :
    ∀ {shapes : List Shape} {home : Option NodeId} {site : Site}, SitsAll tree home shapes site →
    Passage.Chain site.offset
      ((visitsAll (fun _ => false) shapes site).flatMap fun visit => (tree.mark visit).passages)
      (site.pastAll shapes).offset
  | [], home, site, _ => by
    rw [visitsAll, Site.pastAll_nil]
    exact rfl
  | shape :: rest, home, site, hsits => by
    have hfirst := Sits.chain_visits h hlayout hsits.1
    have hrest := SitsAll.chain_visits h hlayout hsits.2
    rw [visitsAll, List.flatMap_append, Site.pastAll_cons]
    exact hfirst.append hrest

end

end Shape

namespace Tree

variable {text : String} {steps : List BuildStep} {tree : Tree}

/-- A visitor takes the steps that built the tree. -/
theorem steps_toJson_outline (h : build text steps = .ok tree) (hlayout : tree.HasWholeLayout) :
    tree.outline.toJson.steps = steps := by
  obtain ⟨kind, field, children, rfl, hhouses⟩ := houses_of_build h
  obtain ⟨-, hsteps⟩ := hhouses.visits_root
  rw [Json.steps, hhouses.marks_outline, List.map_map, ← hsteps]
  apply List.map_congr_left
  intro visit _
  exact hhouses.step_mark hlayout visit

/-- What a visitor writes out lies side by side over the text, and stands in it. -/
theorem chain_toJson_outline (h : build text steps = .ok tree) (hlayout : tree.HasWholeLayout) :
    Passage.Chain 0 tree.outline.toJson.passages tree.text.utf8ByteSize ∧
      ∀ passage ∈ tree.outline.toJson.passages, passage.Cuts tree.text := by
  obtain ⟨kind, field, children, rfl, hhouses⟩ := houses_of_build h
  have hvisits := hhouses.visitsSkipping_eq .whole fun _ => false
  have hchain := Shape.Sits.chain_visits hhouses hlayout hhouses.sits
  have hpassages : tree.outline.toJson.passages =
      (tree.visits root).flatMap fun visit => (tree.mark visit).passages := by
    rw [Json.passages, hhouses.marks_outline, List.flatMap_map]
  rw [← hvisits] at hchain
  constructor
  · rw [hpassages, hhouses.text, ← Nat.zero_add (widthOf _)]
    exact hchain
  · intro passage hmem
    rw [hpassages, List.mem_flatMap] at hmem
    obtain ⟨visit, -, hmem⟩ := hmem
    exact hhouses.cuts_mark hlayout (isBoundary_leaf h) visit passage hmem

theorem text_of_build (h : build text steps = .ok tree) : tree.text = text := by
  obtain ⟨after, hrun, -, -, -, rfl⟩ := ends_of_assemble (assemble_of_build h)
  exact (Builder.run_keeps hrun).1

/-- What a visitor writes out is the text. -/
theorem join_passages_outline (h : build text steps = .ok tree) (hlayout : tree.HasWholeLayout) :
    String.join (tree.outline.toJson.passages.map (·.text)) = text ∧
      ∀ passage ∈ tree.outline.toJson.passages, passage.span.read? text = some passage.text := by
  obtain ⟨hchain, hcuts⟩ := chain_toJson_outline h hlayout
  obtain ⟨-, -, hread, hall⟩ := hchain.read? (Span.isBoundary_zero _) hcuts
  rw [Span.read?_whole] at hread
  rw [← text_of_build h]
  exact ⟨(Option.some.inj hread).symm, hall⟩

end Tree

/-- The JSON form of a tree whose pieces of layout are not empty and end at boundaries of the text
loses nothing: what a visitor writes out are stretches of the text that lie side by side from its
front to its end, and together they are the text; and no other such tree has the same JSON form. -/
theorem Tree.outline_lossless {text : String} {steps : List BuildStep} {tree : Tree}
    (h : Tree.build text steps = .ok tree) (hlayout : tree.HasWholeLayout) :
    String.join (tree.outline.toJson.passages.map (·.text)) = text ∧
      Passage.Chain 0 tree.outline.toJson.passages text.utf8ByteSize ∧
      (∀ passage ∈ tree.outline.toJson.passages, passage.span.read? text = some passage.text) ∧
      ∀ (text' : String) (steps' : List BuildStep) (tree' : Tree),
        Tree.build text' steps' = .ok tree' → tree'.HasWholeLayout →
        tree'.outline.toJson = tree.outline.toJson → tree' = tree := by
  obtain ⟨hjoin, hread⟩ := Tree.join_passages_outline h hlayout
  obtain ⟨hchain, -⟩ := Tree.chain_toJson_outline h hlayout
  rw [Tree.text_of_build h] at hchain
  refine ⟨hjoin, hchain, hread, ?_⟩
  intro text' steps' tree' h' hlayout' hjson
  -- the text and the steps are both read off the JSON form, and they make the tree
  obtain ⟨hjoin', -⟩ := Tree.join_passages_outline h' hlayout'
  have htext : text' = text := by rw [← hjoin', hjson, hjoin]
  have hsteps : steps' = steps := by
    rw [← Tree.steps_toJson_outline h' hlayout', hjson, Tree.steps_toJson_outline h hlayout]
  rw [htext, hsteps, h] at h'
  exact (Except.ok.inj h').symm

/-- A tree with layout in front of a name of two bytes, an empty node, and layout behind a token
without bytes. -/
theorem Tree.outline_lossless_of_zeroWidth :
    ∃ tree, Tree.build " é ;\n" [.start .sourceFile none,
        .token [⟨.whitespace, 1⟩] .name 2 [⟨.whitespace, 1⟩] none,
        .start .argumentList (some .value), .finish, .token [] .semicolon 1 [] none,
        .token [] .eof 0 [⟨.newline, 1⟩] none, .finish] = .ok tree ∧
      tree.HasWholeLayout ∧
      String.join (tree.outline.toJson.passages.map (·.text)) = " é ;\n" ∧
      tree.outline.toJson.passages.map (·.span) =
        [⟨0, 1⟩, ⟨1, 3⟩, ⟨3, 4⟩, ⟨4, 5⟩, ⟨5, 5⟩, ⟨5, 6⟩] := by
  let sample : Tree :=
    { text := " é ;\n"
      nodes := #[⟨.sourceFile, none, none, ⟨0, 4⟩, ⟨0, 3⟩, ⟨0, 6⟩⟩,
        ⟨.argumentList, some .value, some 0, ⟨0, 0⟩, ⟨1, 0⟩, ⟨4, 4⟩⟩]
      leaves :=
        #[⟨.name, none, 0, ⟨1, 3⟩, ⟨0, 1⟩, ⟨1, 1⟩⟩, ⟨.semicolon, none, 0, ⟨4, 5⟩, ⟨2, 0⟩, ⟨2, 0⟩⟩,
        ⟨.eof, none, 0, ⟨5, 5⟩, ⟨2, 0⟩, ⟨2, 1⟩⟩]
      trivia := #[⟨.whitespace, ⟨0, 1⟩⟩, ⟨.whitespace, ⟨3, 4⟩⟩, ⟨.newline, ⟨5, 6⟩⟩]
      children := #[.token 0, .node 1, .token 1, .token 2] }
  have hbuild : Tree.build " é ;\n" [.start .sourceFile none,
      .token [⟨.whitespace, 1⟩] .name 2 [⟨.whitespace, 1⟩] none,
      .start .argumentList (some .value), .finish, .token [] .semicolon 1 [] none,
      .token [] .eof 0 [⟨.newline, 1⟩] none, .finish] = .ok sample := rfl
  have hlayout : sample.HasWholeLayout := by
    unfold HasWholeLayout
    decide
  obtain ⟨hjoin, -⟩ := Tree.outline_lossless hbuild hlayout
  exact ⟨sample, hbuild, hlayout, hjoin, by decide⟩

end ScriptTree

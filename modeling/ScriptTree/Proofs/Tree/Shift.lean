import Mathlib.Data.List.Forall2
import ScriptTree.Proofs.Parser.Shift
import ScriptTree.Proofs.Tree.Places

/-!
Parts of trees further on in a text. Where two trees lay down the same shapes, one of them further
on, the elements that stand for the shapes are the same but for their places.
-/

namespace ScriptTree

/-- Of two cuts of the same characters, the one with fewer bytes in front comes first. -/
theorem exists_between {a b c d : List Char} (h : a ++ b = c ++ d)
    (hle : byteCount a ≤ byteCount c) :
    ∃ middle, c = a ++ middle ∧ b = middle ++ d := by
  rcases List.append_eq_append_iff.mp h with ⟨middle, rfl, rfl⟩ | ⟨middle, rfl, rfl⟩
  · exact ⟨middle, rfl, rfl⟩
  · have hnil : middle = [] := by
      by_contra hne
      have hpos := byteCount_pos hne
      rw [byteCount_append] at hle
      omega
    subst hnil
    exact ⟨[], by simp, by simp⟩

namespace Span

/-- The boundaries of a text are the byte counts of its fronts. -/
theorem isBoundary_iff {text : String} {offset : Nat} : isBoundary text offset = true ↔
    ∃ before after, text.toList = before ++ after ∧ byteCount before = offset := by
  constructor
  · intro h
    have hvalid : (⟨offset⟩ : String.Pos.Raw).IsValid (String.ofList text.toList) := by
      rw [String.ofList_toList]
      exact String.Pos.Raw.isValid_eq_true_iff.mp h
    obtain ⟨count, hcount⟩ := String.Pos.Raw.isValid_ofList.mp hvalid
    refine ⟨text.toList.take count, text.toList.drop count, ?_, ?_⟩
    · rw [List.take_append_drop]
    · rw [byteCount_eq_utf8Len, ← String.utf8ByteSize_ofList]
      exact hcount.symm
  · rintro ⟨before, after, h, rfl⟩
    exact isBoundary_of_split h

/-- Cutting a text further on than its front cuts what lies behind the front. -/
theorem isBoundary_append (front back : String) (offset : Nat) :
    isBoundary (front ++ back) (offset + front.utf8ByteSize) = isBoundary back offset := by
  rw [Bool.eq_iff_iff, isBoundary_iff, isBoundary_iff, String.toList_append,
    utf8ByteSize_eq_byteCount]
  constructor
  · rintro ⟨before, after, h, hcount⟩
    obtain ⟨middle, rfl, hback⟩ := exists_between h (by omega)
    refine ⟨middle, after, hback, ?_⟩
    rw [byteCount_append] at hcount
    omega
  · rintro ⟨before, after, h, rfl⟩
    refine ⟨front.toList ++ before, after, by rw [h, List.append_assoc], ?_⟩
    rw [byteCount_append, Nat.add_comm]

/-- A stretch further on reads as the stretch of what lies behind the front. -/
theorem read_shift (front back : String) (span : Span) :
    (span.shift front.utf8ByteSize).read (front ++ back) = span.read back := by
  have hle : decide ((span.shift front.utf8ByteSize).start ≤
      (span.shift front.utf8ByteSize).stop) = decide (span.start ≤ span.stop) := by
    simp only [shift, Nat.add_le_add_iff_right]
  unfold read
  congr 1
  by_cases hvalid : (span.start ≤ span.stop ∧ isBoundary back span.start = true) ∧
      isBoundary back span.stop = true
  · obtain ⟨⟨hle, hstart⟩, hstop⟩ := hvalid
    obtain ⟨before, rest, hback, hbefore⟩ := isBoundary_iff.mp hstart
    obtain ⟨before', after, hback', hstop⟩ := isBoundary_iff.mp hstop
    obtain ⟨middle, rfl, rfl⟩ := exists_between (hback.symm.trans hback') (by omega)
    rw [byteCount_append] at hstop
    have hspan : span = ⟨byteCount before, byteCount before + byteCount middle⟩ := by
      cases span
      simp_all
    have hshift : span.shift front.utf8ByteSize =
        ⟨byteCount (front.toList ++ before),
          byteCount (front.toList ++ before) + byteCount middle⟩ := by
      rw [hspan, byteCount_append, utf8ByteSize_eq_byteCount]
      simp only [shift, Span.mk.injEq]
      omega
    rw [hshift, hspan, read?_of_split (hback'), read?_of_split]
    rw [String.toList_append, hback', List.append_assoc, List.append_assoc, List.append_assoc]
  · rw [read?, read?, hle]
    simp only [shift, isBoundary_append, Bool.and_eq_true, decide_eq_true_eq, if_neg hvalid]

end Span

def TriviaEntry.shift (distance : Nat) (entry : TriviaEntry) : TriviaEntry :=
  { entry with span := entry.span.shift distance }

theorem Span.sized_add (distance offset size : Nat) :
    Span.sized (offset + distance) size = (Span.sized offset size).shift distance := by
  simp only [Span.sized, Span.shift, Span.mk.injEq, true_and]
  omega

theorem entriesFrom_add (distance offset : Nat) (pieces : List Piece) :
    entriesFrom (offset + distance) pieces =
      (entriesFrom offset pieces).map (TriviaEntry.shift distance) := by
  induction pieces generalizing offset with
  | nil => rfl
  | cons piece rest ih =>
    rw [entriesFrom, entriesFrom, List.map_cons, Span.sized_add, Nat.add_right_comm, ih]
    rfl

theorem Token.width_shift (distance : Nat) (token : Token) :
    (token.shift distance).width = token.width := by
  simp only [Token.width, Token.shift, Span.size_shift]

theorem widthOf_shift (distance : Nat) (tokens : List Token) :
    widthOf (tokens.map (Token.shift distance)) = widthOf tokens := by
  simp only [widthOf, List.map_map, Function.comp_def, Token.width_shift]

theorem placesFrom_shift (distance offset : Nat) (tokens : List Token) :
    placesFrom (offset + distance) (tokens.map (Token.shift distance)) =
      (placesFrom offset tokens).map (Prod.map id (Span.shift distance)) := by
  induction tokens generalizing offset with
  | nil => rfl
  | cons token rest ih =>
    rw [List.map_cons, placesFrom, placesFrom, List.map_cons, Token.width_shift,
      Nat.add_right_comm offset distance token.width, ih]
    simp only [Token.shift, Span.size_shift, Nat.add_right_comm offset distance, Span.sized_add,
      Prod.map_apply, id]

namespace Tree

/-- An element of a tree is an element of another one, moved `distance` bytes further on: kinds,
slots and texts are the same, all places of nodes, tokens and layout are moved, and so it is with
everything below. -/
inductive Shifted (distance : Nat) (tree tree' : Tree) : Element → Element → Prop where
  | token {id id' : TokenId} (kind : (tree'.leaf id').kind = (tree.leaf id).kind)
      (field : (tree'.leaf id').field = (tree.leaf id).field)
      (span : (tree'.leaf id').span = (tree.leaf id).span.shift distance)
      (leading : tree'.leading id' = (tree.leading id).map (TriviaEntry.shift distance))
      (trailing : tree'.trailing id' = (tree.trailing id).map (TriviaEntry.shift distance))
      (text : tree'.leafText id' = tree.leafText id) :
      Shifted distance tree tree' (.token id) (.token id')
  | node {id id' : NodeId} (kind : tree'.kind id' = tree.kind id)
      (field : (tree'.node id').field = (tree.node id).field)
      (span : tree'.nodeSpan id' = (tree.nodeSpan id).shift distance)
      (trimmed : tree'.trimmedSpan id' = (tree.trimmedSpan id).shift distance)
      (elements : List.Forall₂ (Shifted distance tree tree') (tree.elements id)
        (tree'.elements id')) :
      Shifted distance tree tree' (.node id) (.node id')

/-- From the first of some places to the last one, or the place `otherwise` if there is none. -/
def acrossPlaces (places : List (Kind × Span)) (otherwise : Span) : Span :=
  match places.head?, places.getLast? with
  | some first, some last => first.2.through last.2
  | _, _ => otherwise

theorem acrossPlaces_shift (distance : Nat) (places : List (Kind × Span)) (otherwise : Span) :
    acrossPlaces (places.map (Prod.map id (Span.shift distance))) (otherwise.shift distance) =
      (acrossPlaces places otherwise).shift distance := by
  unfold acrossPlaces
  rw [List.head?_map, List.getLast?_map]
  cases places.head? with
  | none => rfl
  | some first => cases places.getLast? <;> rfl

/-- The place of a node without the layout at its ends, from the places of its tokens. -/
theorem trimmedSpan_eq (tree : Tree) (id : NodeId) :
    tree.trimmedSpan id =
      acrossPlaces ((tree.tokensBelow id).map fun token => (tree.leaf token).place)
        (tree.nodeSpan id) := by
  unfold trimmedSpan firstToken? lastToken? tokensBelow Run.positions acrossPlaces
  rw [List.head?_map, List.getLast?_map, List.head?_range', List.getLast?_range']
  by_cases h : (tree.node id).tokens.count = 0
  · simp only [h, if_true, Option.map_none]
  · simp only [h, if_false, Option.map_some]
    rfl

end Tree

namespace Shape

variable {distance : Nat} {tree tree' : Tree} {front : String}

mutual

/-- An element that stands for a shape further on is moved. -/
theorem Lies.shifted (htext : tree'.text = front ++ tree.text)
    (hdistance : front.utf8ByteSize = distance) : ∀ {shape : Shape} {base base' offset : Nat}
    {first first' : TokenId} {element element' : Element},
    shape.Lies tree base offset first element →
    (shape.shift distance).Lies tree' base' (offset + distance) first' element' →
    tree.Shifted distance tree' element element'
  | .leaf token field, base, base', offset, first, first', element, element', h, h' => by
    rw [Lies] at h
    rw [shift, Lies] at h'
    obtain ⟨rfl, leaf, hleaf, hkind, hfield, hspan, hleading, htrailing⟩ := h
    obtain ⟨rfl, leaf', hleaf', hkind', hfield', hspan', hleading', htrailing'⟩ := h'
    have hplace : (tree'.leaf first').span = (tree.leaf first).span.shift distance := by
      rw [Tree.leaf_eq hleaf, Tree.leaf_eq hleaf', hspan, hspan']
      simp only [Token.shift, Span.size_shift, Nat.add_right_comm offset distance, Span.sized_add]
    refine .token ?_ ?_ hplace ?_ ?_ ?_
    · rw [Tree.leaf_eq hleaf, Tree.leaf_eq hleaf', hkind, hkind']
      rfl
    · rw [Tree.leaf_eq hleaf, Tree.leaf_eq hleaf', hfield, hfield']
    · rw [Tree.leading, Tree.leading, Tree.leaf_eq hleaf, Tree.leaf_eq hleaf', hleading.entries,
        hleading'.entries]
      exact entriesFrom_add distance offset token.leading
    · rw [Tree.trailing, Tree.trailing, Tree.leaf_eq hleaf, Tree.leaf_eq hleaf', htrailing.entries,
        htrailing'.entries, ← entriesFrom_add]
      simp only [Token.shift, Span.size_shift, Nat.add_right_comm _ distance]
    · rw [Tree.leafText, Tree.leafText, Tree.read, Tree.read, hplace, htext, ← hdistance,
        Span.read_shift]
  | .node kind field children, base, base', offset, first, first', element, element', h, h' => by
    rw [Lies] at h
    rw [shift, Lies] at h'
    obtain ⟨id, node, elements, rfl, -, hlists, hkind, hfield, hspan, htokens, hall⟩ := h
    obtain ⟨id', node', elements', rfl, -, hlists', hkind', hfield', hspan', htokens', hall'⟩ := h'
    have hplace : tree'.nodeSpan id' = (tree.nodeSpan id).shift distance := by
      rw [Tree.nodeSpan, Tree.nodeSpan, Tree.node_eq hlists.entry, Tree.node_eq hlists'.entry,
        hspan,
        hspan', tokensAll_shift, widthOf_shift, Span.sized_add]
    refine .node ?_ ?_ hplace ?_ ?_
    · rw [Tree.kind, Tree.kind, Tree.node_eq hlists.entry, Tree.node_eq hlists'.entry, hkind,
        hkind']
    · rw [Tree.node_eq hlists.entry, Tree.node_eq hlists'.entry, hfield, hfield']
    · -- the tokens below have the same number, and each of them is moved
      have hbelow := hall.places
      have hbelow' := hall'.places
      rw [tokensAll_shift, placesFrom_shift, List.length_map, ← hbelow] at hbelow'
      rw [Tree.trimmedSpan_eq, Tree.trimmedSpan_eq, Tree.tokensBelow, Tree.tokensBelow,
        Tree.node_eq hlists.entry, Tree.node_eq hlists'.entry, htokens, htokens', hplace,
        ← Tree.acrossPlaces_shift, tokensAll_shift, List.length_map]
      exact congrArg (Tree.acrossPlaces · _) hbelow'
    · rw [hlists.elements, hlists'.elements]
      exact hall.shifted htext hdistance hall'

/-- Elements that stand for shapes further on are moved. -/
theorem LiesAll.shifted (htext : tree'.text = front ++ tree.text)
    (hdistance : front.utf8ByteSize = distance) : ∀ {shapes : List Shape} {base base' offset : Nat}
    {first first' : TokenId} {elements elements' : List Element},
    LiesAll tree base shapes offset first elements →
    LiesAll tree' base' (shiftAll distance shapes) (offset + distance) first' elements' →
    List.Forall₂ (tree.Shifted distance tree') elements elements'
  | [], base, base', offset, first, first', elements, elements', h, h' => by
    rw [LiesAll] at h
    rw [shiftAll, LiesAll] at h'
    rw [h, h']
    exact .nil
  | shape :: rest, base, base', offset, first, first', elements, elements', h, h' => by
    rw [LiesAll] at h
    rw [shiftAll, LiesAll] at h'
    obtain ⟨element, more, rfl, hshape, hrest⟩ := h
    obtain ⟨element', more', rfl, hshape', hrest'⟩ := h'
    rw [tokens_shift, widthOf_shift, Nat.add_right_comm] at hrest'
    exact .cons (hshape.shifted htext hdistance hshape') (hrest.shifted htext hdistance hrest')

end

end Shape

end ScriptTree

import ScriptTree.Proofs.Lexer.Reading
import ScriptTree.Tree.Builder

/-!
Laying tokens onto the text. Tokens that lie side by side are laid down without a gap: each one gets
the span that it has in the text, and so does each piece of layout around it.
-/

namespace ScriptTree

def entriesFrom (offset : Nat) : List Piece → List TriviaEntry
  | [] => []
  | piece :: rest =>
    ⟨piece.kind, Span.sized offset piece.size⟩ :: entriesFrom (offset + piece.size) rest

@[simp] theorem length_entriesFrom (offset : Nat) (pieces : List Piece) :
    (entriesFrom offset pieces).length = pieces.length := by
  induction pieces generalizing offset with
  | nil => rfl
  | cons piece rest ih => simp [entriesFrom, ih]

/-- The first piece of layout starts where the layout starts. -/
theorem Laid.first {a b : Cursor} {pieces : List Piece} (h : Laid a pieces b) :
    ((entriesFrom a.offset pieces).head?.map (·.span.start)).getD b.offset = a.offset := by
  cases h <;> rfl

/-- The last piece of layout stops where the layout stops. -/
theorem Laid.last {a b : Cursor} {pieces : List Piece} (h : Laid a pieces b) :
    ((entriesFrom a.offset pieces).getLast?.map (·.span.stop)).getD a.offset = b.offset := by
  induction h with
  | nil => rfl
  | @cons a b c chars piece pieces hp hne hsize hrest ih =>
    have hb : a.offset + piece.size = b.offset := by rw [hsize, hp.2]
    rw [entriesFrom, hb]
    cases hrest with
    | nil =>
      simp [entriesFrom, Span.sized, hb]
    | @cons _ d _ chars' piece' pieces' hp' hne' hsize' hrest' =>
      rw [entriesFrom] at ih ⊢
      simpa [List.getLast?_cons] using ih

/-- Pieces of layout that were laid within a text can be read from it. -/
theorem Laid.readable {text : String} {a b : Cursor} {pieces : List Piece} (h : Laid a pieces b)
    (hw : a.Within text) :
    ∀ entry ∈ entriesFrom a.offset pieces, (entry.span.read? text).isSome = true := by
  induction h with
  | nil => simp [entriesFrom]
  | @cons a b c chars piece pieces hp hne hsize hrest ih =>
    have hb : a.offset + piece.size = b.offset := by rw [hsize, hp.2]
    intro entry hmem
    rw [entriesFrom, hb] at hmem
    rcases List.mem_cons.mp hmem with rfl | hmem
    · simp only [Span.sized, hb]
      rw [hw.read?_passes hp]
      rfl
    · exact ih (hw.passes hp) entry hmem

namespace Builder

/-- Laying down layout appends its entries. -/
theorem layTrivia_eq (builder : Builder) {a b : Cursor} {pieces : List Piece}
    (h : Laid a pieces b) (ho : builder.offset = a.offset) :
    builder.layTrivia pieces =
      ({ builder with
          trivia := builder.trivia ++ (entriesFrom a.offset pieces).toArray
          offset := b.offset },
        ⟨builder.trivia.size, pieces.length⟩) := by
  unfold layTrivia
  refine Prod.ext ?_ rfl
  dsimp only
  induction h generalizing builder with
  | nil a =>
    rw [← ho]
    simp [entriesFrom]
  | @cons a b c chars piece pieces hp hne hsize hrest ih =>
    have hb : a.offset + piece.size = b.offset := by rw [hsize, hp.2]
    rw [List.foldl_cons, ih _ (by simp only [ho, hb])]
    simp [entriesFrom, hb, ho]

/-- Laying down a token appends its leaf and its layout. -/
theorem token_eq {builder : Builder} {inner : OpenNode} {outer : List OpenNode} {token : Token}
    {a b : Cursor} (h : token.Fills a b) (hopen : builder.opened = inner :: outer)
    (ho : builder.offset = a.offset) (hw : a.Within builder.text)
    (hsize : builder.text.utf8ByteSize < UInt32.size) (field : Option Field) :
    ∃ first last : Cursor, Laid a token.leading first ∧ Laid last token.trailing b ∧
      token.span = ⟨first.offset, last.offset⟩ ∧ first.Within builder.text ∧
      last.Within builder.text ∧
      builder.token token.leading token.kind token.span.size token.trailing field =
        .ok { builder with
          leaves := builder.leaves.push
            { kind := token.kind
              field
              parent := inner.id
              span := token.span
              leading := ⟨builder.trivia.size, token.leading.length⟩
              trailing := ⟨builder.trivia.size + token.leading.length, token.trailing.length⟩ }
          trivia := builder.trivia ++ (entriesFrom a.offset token.leading).toArray ++
            (entriesFrom last.offset token.trailing).toArray
          opened := addChild builder.opened (.token builder.leaves.size)
          offset := b.offset } := by
  obtain ⟨first, last, hleading, hpasses, hspan, htrailing⟩ := h
  obtain ⟨front, hfront⟩ := hleading.passes
  obtain ⟨back, hback⟩ := htrailing.passes
  have hfirst := hw.passes hfront
  have hlast := hfirst.passes hpasses
  have hstop : first.offset + token.span.size = last.offset := by
    have := hpasses.offset_le
    simp only [hspan, Span.size]
    omega
  have hlt : ¬ UInt32.size ≤ b.offset := by
    have := (hlast.passes hback).offset_le
    omega
  refine ⟨first, last, hleading, htrailing, hspan, hfirst, hlast, ?_⟩
  simp only [Builder.token, hopen, layTrivia_eq builder hleading ho]
  simp only [Span.sized, hstop, hlast.isBoundary, if_true]
  rw [layTrivia_eq _ htrailing rfl]
  simp only [hlt, if_false]
  simp [hspan, addChild]

end Builder

def Leaf.spanIn (leaf : Leaf) (trivia : Array TriviaEntry) : Span :=
  let entries (run : Run) := run.positions.map (trivia.getD · default)
  ⟨((entries leaf.leading).head?.map (·.span.start)).getD leaf.span.start,
    ((entries leaf.trailing).getLast?.map (·.span.stop)).getD leaf.span.stop⟩

theorem Tree.leafSpan_eq (tree : Tree) (id : TokenId) :
    tree.leafSpan id = (tree.leaf id).spanIn tree.trivia :=
  rfl

theorem entries_of_run (front back : Array TriviaEntry) (entries : List TriviaEntry) :
    (Run.positions ⟨front.size, entries.length⟩).map
      ((front ++ entries.toArray ++ back).getD · default) = entries := by
  apply List.ext_getElem
  · simp [Run.positions]
  · intro i h h'
    simp [Run.positions, Array.getD_eq_getD_getElem?, Array.getElem?_append, h']

/-- A leaf that was laid down between two positions spans what lies between them. -/
theorem Leaf.spanIn_eq {leaf : Leaf} {a b first last : Cursor} {front more : Array TriviaEntry}
    {leading trailing : List Piece} (hl : Laid a leading first) (ht : Laid last trailing b)
    (hspan : leaf.span = ⟨first.offset, last.offset⟩)
    (hleading : leaf.leading = ⟨front.size, leading.length⟩)
    (htrailing : leaf.trailing = ⟨front.size + leading.length, trailing.length⟩) :
    leaf.spanIn (front ++ (entriesFrom a.offset leading).toArray ++
      (entriesFrom last.offset trailing).toArray ++ more) = ⟨a.offset, b.offset⟩ := by
  have hfront := entries_of_run front ((entriesFrom last.offset trailing).toArray ++ more)
    (entriesFrom a.offset leading)
  have hback := entries_of_run (front ++ (entriesFrom a.offset leading).toArray) more
    (entriesFrom last.offset trailing)
  rw [length_entriesFrom, ← Array.append_assoc] at hfront
  have hsize : (front ++ (entriesFrom a.offset leading).toArray).size =
      front.size + leading.length := by simp
  rw [length_entriesFrom, hsize] at hback
  simp only [spanIn, hspan, hleading, htrailing, hfront, hback, hl.first, ht.last]

end ScriptTree

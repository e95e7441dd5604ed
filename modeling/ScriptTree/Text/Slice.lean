import ScriptTree.Text.Span

/-!
Byte offsets into a text. An offset is a boundary when no character straddles it, and only a
stretch between two boundaries can be read.
-/

namespace ScriptTree

def byteCount (chars : List Char) : Nat :=
  chars.foldl (fun count c => count + c.utf8Size) 0

@[simp] theorem byteCount_nil : byteCount [] = 0 :=
  rfl

@[simp] theorem byteCount_cons (c : Char) (chars : List Char) :
    byteCount (c :: chars) = c.utf8Size + byteCount chars := by
  have shift (count : Nat) : ∀ chars : List Char,
      chars.foldl (fun count c => count + c.utf8Size) count = count + byteCount chars := by
    intro chars
    induction chars generalizing count with
    | nil => rfl
    | cons d rest ih =>
      simp only [byteCount, List.foldl_cons]
      rw [ih, ih (0 + d.utf8Size)]
      omega
  calc byteCount (c :: chars) = (0 + c.utf8Size) + byteCount chars := shift _ chars
    _ = c.utf8Size + byteCount chars := by rw [Nat.zero_add]

@[simp] theorem byteCount_append (a b : List Char) :
    byteCount (a ++ b) = byteCount a + byteCount b := by
  induction a with
  | nil => simp
  | cons c rest ih => simp [ih, Nat.add_assoc]

namespace Span

def isBoundary (text : String) (offset : Nat) : Bool :=
  String.Pos.Raw.isValid text ⟨offset⟩

def read? (span : Span) (text : String) : Option String :=
  if span.start ≤ span.stop && isBoundary text span.start && isBoundary text span.stop then
    some (String.Pos.Raw.extract text ⟨span.start⟩ ⟨span.stop⟩)
  else
    none

/-- The characters of a stretch, or the empty text where it cannot be read. -/
def read (span : Span) (text : String) : String :=
  (span.read? text).getD ""

end Span

end ScriptTree

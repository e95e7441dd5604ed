import ScriptTree.Text.Slice

/-!
Reading positions: the characters that are still to come, and how many bytes came before them.
-/

namespace ScriptTree

/-- A position in a text. -/
structure Cursor where
  offset : Nat
  rest : List Char
  deriving DecidableEq, Repr, Inhabited

namespace Cursor

def ofText (text : String) : Cursor :=
  ⟨0, text.toList⟩

def peek (cursor : Cursor) (count : Nat) : List Char :=
  cursor.rest.take count

def skip (cursor : Cursor) (count : Nat) : Cursor :=
  ⟨cursor.offset + byteCount (cursor.peek count), cursor.rest.drop count⟩

/-- Nothing lies between a position and the one that it skips to but what it saw ahead. -/
theorem peek_append_skip (cursor : Cursor) (count : Nat) :
    cursor.peek count ++ (cursor.skip count).rest = cursor.rest :=
  List.take_append_drop count cursor.rest

end Cursor

end ScriptTree

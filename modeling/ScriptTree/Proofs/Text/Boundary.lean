import Mathlib.Data.String.Basic
import ScriptTree.Lexer.Cursor

/-!
Cuts of a text. A cursor that was moved over whole characters stands at a boundary of the text, and
what lies between two such cursors can be read back from the text.
-/

namespace ScriptTree

/-- Behind the front run of a list comes what is left without it. -/
theorem drop_length_takeWhile {α : Type*} (p : α → Bool) (xs : List α) :
    xs.drop (xs.takeWhile p).length = xs.dropWhile p := by
  conv => lhs; arg 2; rw [← List.takeWhile_append_dropWhile (p := p) (l := xs)]
  exact List.drop_left

theorem byteCount_eq_utf8Len (chars : List Char) : byteCount chars = String.utf8Len chars := by
  induction chars with
  | nil => rfl
  | cons c rest ih =>
    rw [byteCount_cons, String.utf8Len_cons, ih]
    omega

theorem utf8ByteSize_eq_byteCount (text : String) :
    text.utf8ByteSize = byteCount text.toList := by
  have h := String.utf8ByteSize_ofList text.toList
  rw [String.ofList_toList] at h
  rw [h, byteCount_eq_utf8Len]

theorem byteCount_pos {chars : List Char} (h : chars ≠ []) : 0 < byteCount chars := by
  cases chars with
  | nil => exact absurd rfl h
  | cons c rest =>
    rw [byteCount_cons]
    have := c.utf8Size_pos
    omega

namespace Span

theorem isBoundary_of_split {text : String} {before after : List Char}
    (h : text.toList = before ++ after) : isBoundary text (byteCount before) = true := by
  have hv : (⟨byteCount before⟩ : String.Pos.Raw).IsValid (String.ofList text.toList) := by
    rw [String.Pos.Raw.isValid_ofList]
    refine ⟨before.length, ?_⟩
    rw [h, List.take_left', String.utf8ByteSize_ofList, byteCount_eq_utf8Len]
    rfl
  rw [String.ofList_toList] at hv
  exact String.Pos.Raw.isValid_eq_true_iff.mpr hv

/-- A stretch between two boundaries holds the characters between them. -/
theorem read?_of_split {text : String} {before middle after : List Char}
    (h : text.toList = before ++ middle ++ after) :
    (⟨byteCount before, byteCount before + byteCount middle⟩ : Span).read? text =
      some (String.ofList middle) := by
  have hs : isBoundary text (byteCount before) = true :=
    isBoundary_of_split (by rw [h, List.append_assoc])
  have he : isBoundary text (byteCount before + byteCount middle) = true := by
    rw [← byteCount_append]
    exact isBoundary_of_split h
  have hx := String.extract_of_valid before middle after
  rw [← h, String.ofList_toList] at hx
  simp only [read?, hs, he, Nat.le_add_right, decide_true, Bool.and_self, ↓reduceIte,
    Option.some.injEq]
  rw [byteCount_eq_utf8Len, byteCount_eq_utf8Len]
  exact hx

end Span

namespace Cursor

/-- From the first position to the second one, exactly these characters are passed. -/
def Passes (start : Cursor) (chars : List Char) (stop : Cursor) : Prop :=
  start.rest = chars ++ stop.rest ∧ stop.offset = start.offset + byteCount chars

theorem Passes.refl (cursor : Cursor) : cursor.Passes [] cursor :=
  ⟨rfl, rfl⟩

theorem Passes.trans {a b c : Cursor} {xs ys : List Char} (h : a.Passes xs b)
    (h' : b.Passes ys c) : a.Passes (xs ++ ys) c := by
  refine ⟨?_, ?_⟩
  · rw [h.1, h'.1, List.append_assoc]
  · rw [h'.2, h.2, byteCount_append, Nat.add_assoc]

theorem Passes.eq_of_nil {a b : Cursor} (h : a.Passes [] b) : b = a := by
  obtain ⟨hrest, hoffset⟩ := h
  cases a
  cases b
  simp_all

theorem Passes.cancel {a b c : Cursor} {front back : List Char} (h : a.Passes front b)
    (h' : a.Passes (front ++ back) c) : b.Passes back c := by
  obtain ⟨hrest, hoffset⟩ := h
  obtain ⟨hrest', hoffset'⟩ := h'
  rw [hrest, List.append_assoc] at hrest'
  rw [byteCount_append] at hoffset'
  exact ⟨List.append_cancel_left hrest', by omega⟩

theorem passes_skip (cursor : Cursor) (count : Nat) :
    cursor.Passes (cursor.peek count) (cursor.skip count) :=
  ⟨(peek_append_skip cursor count).symm, rfl⟩

theorem Passes.skip {a b : Cursor} {run : List Char} (h : a.Passes run b) {size : Nat}
    (hsize : size ≤ run.length) : (a.skip size).Passes (run.drop size) b := by
  have hpeek : a.peek size = run.take size := by
    rw [peek, h.1]
    exact List.take_append_of_le_length hsize
  refine (a.passes_skip size).cancel ?_
  rwa [hpeek, List.take_append_drop]

theorem Passes.offset_le {a b : Cursor} {xs : List Char} (h : a.Passes xs b) :
    a.offset ≤ b.offset := by
  rw [h.2]
  omega

theorem Passes.offset_lt {a b : Cursor} {xs : List Char} (h : a.Passes xs b) (hx : xs ≠ []) :
    a.offset < b.offset := by
  have := byteCount_pos hx
  rw [h.2]
  omega

def Within (text : String) (cursor : Cursor) : Prop :=
  ∃ before, (ofText text).Passes before cursor

theorem within_ofText (text : String) : (ofText text).Within text :=
  ⟨[], Passes.refl _⟩

theorem Within.passes {text : String} {a b : Cursor} {xs : List Char} (h : a.Within text)
    (hp : a.Passes xs b) : b.Within text := by
  obtain ⟨before, hb⟩ := h
  exact ⟨before ++ xs, hb.trans hp⟩

/-- The bytes before a position and those to come are the bytes of the text. -/
theorem Within.offset_add {text : String} {cursor : Cursor} (h : cursor.Within text) :
    cursor.offset + byteCount cursor.rest = text.utf8ByteSize := by
  obtain ⟨before, hr, ho⟩ := h
  have ht : text.toList = before ++ cursor.rest := hr
  rw [utf8ByteSize_eq_byteCount, ht, byteCount_append, ho]
  simp [ofText]

theorem Within.offset_le {text : String} {cursor : Cursor} (h : cursor.Within text) :
    cursor.offset ≤ text.utf8ByteSize := by
  have := h.offset_add
  omega

theorem Within.isBoundary {text : String} {cursor : Cursor} (h : cursor.Within text) :
    Span.isBoundary text cursor.offset = true := by
  obtain ⟨before, hr, ho⟩ := h
  have hb : Span.isBoundary text (byteCount before) = true := Span.isBoundary_of_split hr
  have he : cursor.offset = byteCount before := by simpa [ofText] using ho
  rw [he]
  exact hb

/-- What is passed between two positions of a text is read back from it. -/
theorem Within.read?_passes {text : String} {a b : Cursor} {xs : List Char} (h : a.Within text)
    (hp : a.Passes xs b) : (⟨a.offset, b.offset⟩ : Span).read? text = some (String.ofList xs) := by
  obtain ⟨before, hr, ho⟩ := h
  have ha : a.offset = byteCount before := by simpa [ofText] using ho
  have ht : text.toList = before ++ xs ++ b.rest := by
    have hr' : text.toList = before ++ a.rest := hr
    rw [hr', hp.1, List.append_assoc]
  rw [hp.2, ha]
  exact Span.read?_of_split ht

end Cursor

end ScriptTree

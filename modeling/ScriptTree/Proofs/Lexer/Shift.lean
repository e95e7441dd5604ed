import ScriptTree.Proofs.Lexer.Reading

/-!
Reading further on in a text. What a lexer reads depends on the characters to come, on the mode and
on whether an operand ends in front of the lookahead, but not on how many bytes came before. So two
lexers with the same characters to come read the same tokens, at places that lie apart by a fixed
number of bytes.
-/

namespace ScriptTree

def Span.shift (distance : Nat) (span : Span) : Span :=
  ⟨span.start + distance, span.stop + distance⟩

@[simp] theorem Span.size_shift (distance : Nat) (span : Span) :
    (span.shift distance).size = span.size := by
  simp only [Span.size, Span.shift]
  omega

def LexError.shift (distance : Nat) (error : LexError) : LexError :=
  { error with span := error.span.shift distance }

def Token.shift (distance : Nat) (token : Token) : Token :=
  { token with
    span := token.span.shift distance
    error := token.error.map (·.shift distance) }

def Cursor.shift (distance : Nat) (cursor : Cursor) : Cursor :=
  ⟨cursor.offset + distance, cursor.rest⟩

theorem Cursor.skip_shift (distance : Nat) (cursor : Cursor) (count : Nat) :
    (cursor.shift distance).skip count = (cursor.skip count).shift distance := by
  simp only [Cursor.skip, Cursor.shift, Cursor.peek, Cursor.mk.injEq, and_true]
  omega

def Layout.shift (distance : Nat) (run : Layout) : Layout :=
  { run with
    error := run.error.map (·.shift distance)
    after := run.after.shift distance }

theorem layout_of_none {start : Cursor} (h : stretch? start.rest = none) :
    layout start = ⟨[], none, start⟩ := by
  rw [layout]
  split
  · rfl
  · next found hfound => rw [h] at hfound; cases hfound

/-- Layout by its first piece. -/
theorem layout_of_some {start : Cursor} {stretch : Stretch}
    (h : stretch? start.rest = some stretch) :
    layout start =
      { pieces := ⟨stretch.kind, Span.size ⟨start.offset, (start.skip stretch.size).offset⟩⟩ ::
          (layout (start.skip stretch.size)).pieces
        error := if stretch.closed then (layout (start.skip stretch.size)).error
          else some ⟨.unterminatedComment, ⟨start.offset, (start.skip stretch.size).offset⟩⟩
        after := (layout (start.skip stretch.size)).after } := by
  rw [layout]
  split
  · next hfound => rw [h] at hfound; cases hfound
  · next found hfound =>
    obtain rfl : stretch = found := Option.some.inj (h.symm.trans hfound)
    rfl

/-- Layout does not depend on how far from the front of the text it stands. -/
theorem layout_shift (distance : Nat) (start : Cursor) :
    layout (start.shift distance) = (layout start).shift distance := by
  fun_induction layout start with
  | case1 start hs =>
    have hs' : stretch? (start.shift distance).rest = none := hs
    rw [layout_of_none hs']
    rfl
  | case2 start stretch hs next span more ih =>
    have hs' : stretch? (start.shift distance).rest = some stretch := hs
    have hspan : (⟨(start.shift distance).offset, (next.shift distance).offset⟩ : Span) =
        span.shift distance := rfl
    rw [layout_of_some hs', Cursor.skip_shift, ih, hspan, Span.size_shift, Layout.shift,
      Layout.shift]
    split <;> rfl

/-- A sign belongs to a number or not by whether an operand ends in front of it. -/
theorem scan_congr (mode : LexMode) {preceding preceding' : Kind}
    (h : preceding'.endsOperand = preceding.endsOperand) (chars : List Char) :
    scan mode preceding' chars = scan mode preceding chars := by
  have hstarts : Number.starts preceding' chars = Number.starts preceding chars := by
    cases chars with
    | nil => rfl
    | cons c rest => simp only [Number.starts, h]
  cases chars with
  | nil => rfl
  | cons c rest => simp only [scan, Scan.plain, hstarts]

/-- A token with its layout does not depend on how far from the front of the text it stands, nor on
the token before it as long as that one can end an operand or cannot. -/
theorem lex_shift (distance : Nat) (mode : LexMode) {preceding preceding' : Kind}
    (h : preceding'.endsOperand = preceding.endsOperand) (start : Cursor) :
    lex mode preceding' (start.shift distance) =
      ((lex mode preceding start).1.shift distance,
        (lex mode preceding start).2.shift distance) := by
  let front := layout start
  let found := scan mode preceding front.after.rest
  have hfront : layout (start.shift distance) = front.shift distance := layout_shift distance start
  have hfound : scan mode preceding' (front.shift distance).after.rest = found :=
    scan_congr mode h _
  have hstop : (front.shift distance).after.skip found.size =
      (front.after.skip found.size).shift distance := Cursor.skip_shift distance _ _
  have hback := layout_shift distance (front.after.skip found.size)
  simp only [lex, hfront, hfound, hstop, hback]
  -- what is wrong with the token is the first of three, and each of them lies further on
  refine Prod.ext (congrArg (Token.mk _ _ _ _ _) ?_) rfl
  simp only [Layout.shift, front]
  cases (layout (front.after.skip found.size)).error with
  | some error => rfl
  | none => cases found.fault <;> rfl

namespace Lexer

/-- Two lexers read the same characters in the same way, the second one `distance` bytes further
on. -/
structure Shifted (distance : Nat) (lexer lexer' : Lexer) : Prop where
  start : lexer'.start = lexer.start.shift distance
  mode : lexer'.mode = lexer.mode
  operand : lexer'.preceding.endsOperand = lexer.preceding.endsOperand
  current : lexer'.current = lexer.current.shift distance
  next : lexer'.next = lexer.next.shift distance

variable {distance : Nat} {lexer lexer' : Lexer}

theorem shifted_place (distance : Nat) (start : Cursor) (mode : LexMode)
    {preceding preceding' : Kind} (h : preceding'.endsOperand = preceding.endsOperand) :
    Shifted distance (place start mode preceding)
      (place (start.shift distance) mode preceding') := by
  have hlex := lex_shift distance mode h start
  refine ⟨rfl, rfl, h, ?_, ?_⟩
  · exact congrArg Prod.fst hlex
  · exact congrArg Prod.snd hlex

theorem Shifted.kind (h : Shifted distance lexer lexer') :
    lexer'.current.kind = lexer.current.kind := by
  rw [h.current]
  rfl

theorem Shifted.advance (h : Shifted distance lexer lexer') :
    Shifted distance lexer.advance lexer'.advance := by
  rw [Lexer.advance, Lexer.advance, h.next]
  exact shifted_place distance lexer.next .plain (by rw [h.kind])

theorem Shifted.relex (h : Shifted distance lexer lexer') (mode : LexMode) :
    Shifted distance (lexer.relex mode) (lexer'.relex mode) := by
  simp only [Lexer.relex, h.mode, h.start]
  split
  · exact h
  · exact shifted_place distance lexer.start mode h.operand

theorem Shifted.ahead (h : Shifted distance lexer lexer') (count : Nat) :
    lexer'.ahead count = (lexer.ahead count).shift distance := by
  induction count generalizing lexer lexer' with
  | zero => exact h.current
  | succ count ih => exact ih h.advance

end Lexer

end ScriptTree

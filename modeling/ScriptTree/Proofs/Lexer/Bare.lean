import ScriptTree.Proofs.Lexer.Shift
import ScriptTree.Proofs.Lexer.Spelling

/-!
Tokens without layout around them. Where no layout stands in front of some characters nor behind
them, and they are read as one token, a lexer gives that token and goes on right behind it.
-/

namespace ScriptTree

open Text

def Token.bare (kind : Kind) (offset : Nat) (chars : List Char) : Token where
  leading := []
  kind := kind
  span := ⟨offset, offset + byteCount chars⟩
  text := String.ofList chars
  trailing := []
  error := none

def Text.IsSolid (c : Char) : Prop :=
  c ≠ '/' ∧ c ≠ '\\' ∧ isBlank c = false

instance (c : Char) : Decidable (IsSolid c) :=
  inferInstanceAs (Decidable (_ ∧ _))

/-- No form of layout starts with such a character, whatever comes behind it. -/
theorem stretch?_of_solid {c : Char} (h : IsSolid c) (rest : List Char) :
    stretch? (c :: rest) = none := by
  obtain ⟨hslash, hback, hblank⟩ := h
  unfold stretch?
  split
  case h_1 | h_2 =>
    next heq => exact absurd (List.cons.inj heq).1 hslash
  case h_3 =>
    next heq =>
    obtain ⟨rfl, -⟩ := List.cons.inj heq
    cases hblank
  case h_4 | h_5 =>
    next heq => exact absurd (List.cons.inj heq).1 hback
  case h_6 =>
    next heq =>
    obtain ⟨rfl, -⟩ := List.cons.inj heq
    rw [hblank]
    rfl
  case h_7 => rfl

namespace Lexer

variable {mode : LexMode} {preceding kind : Kind} {chars rest : List Char}

/-- Characters with no layout around them that are read as one token give that token. -/
theorem place_bare (hfront : stretch? (chars ++ rest) = none) (hback : stretch? rest = none)
    (hscan : scan mode preceding (chars ++ rest) = .sound kind chars.length) (offset : Nat) :
    (place ⟨offset, chars ++ rest⟩ mode preceding).current = .bare kind offset chars ∧
      (place ⟨offset, chars ++ rest⟩ mode preceding).next = ⟨offset + byteCount chars, rest⟩ := by
  let start : Cursor := ⟨offset, chars ++ rest⟩
  let next : Cursor := ⟨offset + byteCount chars, rest⟩
  have hstart : layout start = ⟨[], none, start⟩ := layout_of_none hfront
  have hstop : layout next = ⟨[], none, next⟩ := layout_of_none hback
  have hskip : start.skip chars.length = next := by
    simp only [start, next, Cursor.skip, Cursor.peek, List.take_left, List.drop_left]
  have hpeek : start.peek chars.length = chars := List.take_left
  have hfound : scan mode preceding start.rest = .sound kind chars.length := hscan
  have hlex : lex mode preceding start = (.bare kind offset chars, next) := by
    simp only [lex, hstart, hfound, Scan.sound, hskip, hstop, hpeek]
    rfl
  have hcurrent : (place start mode preceding).current = (lex mode preceding start).1 := rfl
  have hnext : (place start mode preceding).next = (lex mode preceding start).2 := rfl
  rw [hcurrent, hnext, hlex]
  exact ⟨rfl, rfl⟩

/-- The token is collected, and what follows it is collected next. -/
theorem collect_bare (hfront : stretch? (chars ++ rest) = none) (hback : stretch? rest = none)
    (hscan : scan mode preceding (chars ++ rest) = .sound kind chars.length) (hkind : kind ≠ .eof)
    (offset limit : Nat) :
    (place ⟨offset, chars ++ rest⟩ mode preceding).collect (limit + 1) =
      .bare kind offset chars ::
        (place ⟨offset + byteCount chars, rest⟩ .plain kind).collect limit := by
  obtain ⟨hcurrent, hnext⟩ := place_bare hfront hback hscan offset
  rw [collect, hcurrent, advance, hcurrent, hnext]
  exact if_neg hkind

/-- At the end of the text the end is all that is collected. -/
theorem collect_end (offset limit : Nat) :
    (place ⟨offset, []⟩ mode preceding).collect (limit + 1) = [.bare .eof offset []] := by
  have hend : stretch? ([] ++ []) = none := rfl
  obtain ⟨hcurrent, -⟩ := place_bare hend rfl (scan_nil mode preceding) offset
  rw [List.nil_append] at hcurrent
  rw [collect, hcurrent]
  exact if_pos rfl

end Lexer

end ScriptTree

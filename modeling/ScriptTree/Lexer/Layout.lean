import ScriptTree.Lexer.Cursor
import ScriptTree.Text.Blank
import ScriptTree.Token

/-!
Layout: white space, line breaks, comments and line continuations, read piece by piece until a
character starts none of them.
-/

namespace ScriptTree

open Text

/-- The extent of one piece of layout: its kind, the number of its characters, and whether it is
complete. Only a block comment can be incomplete. -/
structure Stretch where
  kind : TriviaKind
  size : Nat
  closed : Bool
  deriving DecidableEq, Repr, Inhabited

def commentRun : List Char → Nat × Bool
  | [] => (0, false)
  | '*' :: '/' :: _ => (2, true)
  | _ :: rest =>
    let (size, closed) := commentRun rest
    (size + 1, closed)

def isInlineBlank (c : Char) : Bool :=
  isBlank c && c != '\n'

def stretch? (chars : List Char) : Option Stretch :=
  match chars with
  | '/' :: '/' :: _ => some ⟨.lineComment, (chars.takeWhile (· != '\n')).length, true⟩
  | '/' :: '*' :: rest =>
    let (size, closed) := commentRun rest
    some ⟨.blockComment, 2 + size, closed⟩
  | '\n' :: _ => some ⟨.newline, 1, true⟩
  | '\\' :: '\n' :: _ => some ⟨.lineContinuation, 2, true⟩
  | '\\' :: '\r' :: '\n' :: _ => some ⟨.lineContinuation, 3, true⟩
  | c :: _ =>
    if isBlank c then some ⟨.whitespace, (chars.takeWhile isInlineBlank).length, true⟩ else none
  | [] => none

/-- A piece of layout has at least one character, and stands before one. -/
theorem stretch?_pos {chars : List Char} {stretch : Stretch} (h : stretch? chars = some stretch) :
    0 < stretch.size ∧ chars ≠ [] := by
  unfold stretch? at h
  split at h
  · simp only [Option.some.injEq] at h
    subst h
    simp
  · simp only [Option.some.injEq] at h
    subst h
    simp only [ne_eq, reduceCtorEq, not_false_eq_true, and_true]
    omega
  · simp only [Option.some.injEq] at h
    subst h
    simp
  · simp only [Option.some.injEq] at h
    subst h
    simp
  · simp only [Option.some.injEq] at h
    subst h
    simp
  · rename_i c rest _ _ notNewline _ _
    split at h
    · rename_i blank
      simp only [Option.some.injEq] at h
      subst h
      have inline : isInlineBlank c = true := by
        have : c ≠ '\n' := notNewline
        simp [isInlineBlank, blank, this]
      simp [inline]
    · simp at h
  · simp at h

structure Layout where
  pieces : List Piece
  error : Option LexError
  after : Cursor
  deriving DecidableEq, Repr, Inhabited

def layout (start : Cursor) : Layout :=
  match _found : stretch? start.rest with
  | none => ⟨[], none, start⟩
  | some stretch =>
    let next := start.skip stretch.size
    let span : Span := ⟨start.offset, next.offset⟩
    let more := layout next
    { pieces := ⟨stretch.kind, span.size⟩ :: more.pieces
      error := if stretch.closed then more.error else some ⟨.unterminatedComment, span⟩
      after := more.after }
termination_by start.rest.length
decreasing_by
  have ⟨pos, nonempty⟩ := stretch?_pos _found
  have : 0 < start.rest.length := List.length_pos_iff.mpr nonempty
  simp only [Cursor.skip, List.length_drop]
  omega

end ScriptTree

import ScriptTree.Proofs.Lexer.Fault

/-!
A tokenizer that keeps what it collects in slots of its own: the pieces of layout so far, a literal
that was left open, and the error that the next token is to carry. Lexing finds the slots empty and
leaves them empty, so they hold nothing from one token to the next, and the tokenizer does what the
lexer does that has no slots.
-/

namespace ScriptTree

structure Slots where
  cursor : Cursor
  pieces : List Piece
  unterminated : Option LexFault
  pending : Option LexError
  deriving DecidableEq, Repr

namespace Slots

def empty (cursor : Cursor) : Slots :=
  ⟨cursor, [], none, none⟩

/-- Collects a piece of layout. A comment that is left open becomes the pending error. -/
def collect (slots : Slots) (stretch : Stretch) : Slots :=
  let next := slots.cursor.skip stretch.size
  let span : Span := ⟨slots.cursor.offset, next.offset⟩
  { slots with
    cursor := next
    pieces := slots.pieces ++ [⟨stretch.kind, span.size⟩]
    pending := if stretch.closed then slots.pending else some ⟨.unterminatedComment, span⟩ }

def trivia (slots : Slots) : Slots :=
  match _found : stretch? slots.cursor.rest with
  | none => slots
  | some stretch => (slots.collect stretch).trivia
termination_by slots.cursor.rest.length
decreasing_by
  have ⟨pos, nonempty⟩ := stretch?_pos _found
  have : 0 < slots.cursor.rest.length := List.length_pos_iff.mpr nonempty
  simp only [collect, Cursor.skip, List.length_drop]
  omega

/-- Goes behind the token that comes next. A literal that is left open is noted while it is read,
and the note becomes the pending error. -/
def pass (slots : Slots) (found : Scan) : Slots :=
  let next := slots.cursor.skip found.size
  let noted := { slots with cursor := next, unterminated := found.fault <|> slots.unterminated }
  match noted.unterminated with
  | none => noted
  | some fault =>
    { noted with
      unterminated := none
      pending := some ⟨fault, ⟨slots.cursor.offset, next.offset⟩⟩ }

def lex (mode : LexMode) (preceding : Kind) (slots : Slots) : Token × Slots :=
  let front := slots.trivia
  let found := scan mode preceding front.cursor.rest
  let behind := front.pass found
  let back := behind.trivia
  let token : Token :=
    { leading := back.pieces.take front.pieces.length
      kind := found.kind
      span := ⟨front.cursor.offset, behind.cursor.offset⟩
      text := String.ofList (front.cursor.peek found.size)
      trailing := back.pieces.drop front.pieces.length
      error := back.pending }
  (token, { back with pieces := [], pending := none })

/-- Of several open comments the last one is pending, and there is at most one. -/
theorem trivia_eq (slots : Slots) :
    slots.trivia =
      { slots with
        cursor := (layout slots.cursor).after
        pieces := slots.pieces ++ (layout slots.cursor).pieces
        pending := (layout slots.cursor).error <|> slots.pending } := by
  fun_induction trivia slots with
  | case1 slots hnone =>
    rw [layout_of_none hnone, List.append_nil]
    rfl
  | case2 slots stretch hsome ih =>
    rw [ih, layout_of_some hsome]
    cases hclosed : stretch.closed with
    | true => simp [collect, hclosed]
    | false =>
      -- nothing comes behind the open comment
      let next := slots.cursor.skip stretch.size
      have hend : next.rest = [] := stretch?_of_open hsome hclosed
      have hlayout : layout next = ⟨[], none, next⟩ := layout_of_none (by rw [hend]; rfl)
      simp only [collect, hclosed, next] at hlayout ⊢
      simp [hlayout]

/-- A note that was made is the pending error behind the token. -/
theorem pass_eq (slots : Slots) (h : slots.unterminated = none) (found : Scan) :
    slots.pass found =
      { slots with
        cursor := slots.cursor.skip found.size
        pending := found.fault.map
          (⟨·, ⟨slots.cursor.offset, (slots.cursor.skip found.size).offset⟩⟩) <|>
            slots.pending } := by
  unfold pass
  cases hfault : found.fault <;> simp [h]

/-- Lexing from empty slots gives the token that there is without slots, and leaves them empty. -/
theorem lex_empty (mode : LexMode) (preceding : Kind) (start : Cursor) :
    (empty start).lex mode preceding =
      ((ScriptTree.lex mode preceding start).1,
        empty (ScriptTree.lex mode preceding start).2) := by
  simp only [lex, ScriptTree.lex, trivia_eq, empty, pass_eq, List.nil_append, List.take_left,
    List.drop_left, Prod.mk.injEq]
  simp

end Slots

structure Tokenizer where
  slots : Slots
  current : Token
  mode : LexMode
  start : Cursor
  preceding : Kind
  deriving DecidableEq, Repr

namespace Tokenizer

def ofText (text : String) : Tokenizer :=
  let start := Cursor.ofText text
  let (current, slots) := (Slots.empty start).lex .plain .eof
  { slots, current, mode := .plain, start, preceding := .eof }

def next (tokenizer : Tokenizer) : Token × Tokenizer :=
  let preceding := tokenizer.current.kind
  let (current, slots) := tokenizer.slots.lex .plain preceding
  (tokenizer.current,
    { slots, current, mode := .plain, start := tokenizer.slots.cursor, preceding })

def relex (tokenizer : Tokenizer) (mode : LexMode) : Tokenizer :=
  if tokenizer.mode = mode then tokenizer
  else
    let (current, slots) :=
      { tokenizer.slots with cursor := tokenizer.start }.lex mode tokenizer.preceding
    { tokenizer with slots, current, mode }

def ofLexer (lexer : Lexer) : Tokenizer :=
  { slots := .empty lexer.next
    current := lexer.current
    mode := lexer.mode
    start := lexer.start
    preceding := lexer.preceding }

theorem ofText_eq (text : String) : ofText text = ofLexer (.ofText text) := by
  simp only [ofText, Slots.lex_empty]
  rfl

theorem next_ofLexer (lexer : Lexer) :
    (ofLexer lexer).next = (lexer.current, ofLexer lexer.advance) := by
  simp only [next, ofLexer, Slots.lex_empty]
  rfl

theorem relex_ofLexer (lexer : Lexer) (mode : LexMode) :
    (ofLexer lexer).relex mode = ofLexer (lexer.relex mode) := by
  by_cases hmode : lexer.mode = mode
  · rw [relex, Lexer.relex, if_pos hmode, if_pos (show (ofLexer lexer).mode = mode from hmode)]
  · have hslots : { (ofLexer lexer).slots with cursor := (ofLexer lexer).start } =
        Slots.empty lexer.start := rfl
    rw [relex, Lexer.relex, if_neg hmode, if_neg (show (ofLexer lexer).mode ≠ mode from hmode),
      hslots, Slots.lex_empty]
    rfl

inductive UsedAs (text : String) : Tokenizer → Lexer → Prop where
  | fresh : UsedAs text (.ofText text) (.ofText text)
  | next {tokenizer : Tokenizer} {lexer : Lexer} (before : UsedAs text tokenizer lexer) :
      UsedAs text tokenizer.next.2 lexer.advance
  | relex {tokenizer : Tokenizer} {lexer : Lexer} (mode : LexMode)
      (before : UsedAs text tokenizer lexer) :
      UsedAs text (tokenizer.relex mode) (lexer.relex mode)

theorem UsedAs.eq_ofLexer {text : String} {tokenizer : Tokenizer} {lexer : Lexer}
    (h : UsedAs text tokenizer lexer) : tokenizer = ofLexer lexer := by
  induction h with
  | fresh => exact ofText_eq text
  | next _ ih => rw [ih, next_ofLexer]
  | relex mode _ ih => rw [ih, relex_ofLexer]

theorem exists_usedAs {text : String} {tokens : List Token} {lexer : Lexer}
    (h : Lexer.Reads (.ofText text) tokens lexer) : ∃ tokenizer, UsedAs text tokenizer lexer := by
  induction h with
  | refl => exact ⟨_, .fresh⟩
  | relex mode _ ih =>
    obtain ⟨tokenizer, hused⟩ := ih
    exact ⟨_, hused.relex mode⟩
  | take _ ih =>
    obtain ⟨tokenizer, hused⟩ := ih
    exact ⟨_, hused.next⟩

/-- However a lexer is used, the tokenizer with slots that is used alike has the same lookahead, and
its slots are empty. -/
theorem history_slots (text : String) (uses : List Lexer.Use) :
    ∀ line ∈ ((Lexer.History.ofText text).run uses).lines, ∃ tokenizer,
      UsedAs text tokenizer line.lexer ∧ tokenizer.current = line.lexer.current ∧
        tokenizer.slots = .empty line.lexer.next := by
  intro line hmem
  obtain ⟨tokenizer, hused⟩ := exists_usedAs (Lexer.History.reads_run text uses line hmem)
  refine ⟨tokenizer, hused, ?_⟩
  rw [hused.eq_ofLexer]
  exact ⟨rfl, rfl⟩

end Tokenizer

end ScriptTree

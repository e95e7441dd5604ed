import ScriptTree.Lexer
import ScriptTree.Proofs.Lexer.Scan
import ScriptTree.Proofs.Text.Boundary

/-!
What a lexer reads. However the lookahead is read again on the way, the tokens that are taken lie
side by side on the text, layout included, and every token but the end of the text moves the lexer
forward.
-/

namespace ScriptTree

inductive Laid : Cursor → List Piece → Cursor → Prop where
  | nil (cursor : Cursor) : Laid cursor [] cursor
  | cons {a b c : Cursor} {chars : List Char} {piece : Piece} {pieces : List Piece}
      (passes : a.Passes chars b) (nonempty : chars ≠ []) (size : piece.size = byteCount chars)
      (rest : Laid b pieces c) : Laid a (piece :: pieces) c

theorem Laid.passes {a b : Cursor} {pieces : List Piece} (h : Laid a pieces b) :
    ∃ chars, a.Passes chars b := by
  induction h with
  | nil cursor => exact ⟨[], Cursor.Passes.refl cursor⟩
  | cons hp _ _ _ ih =>
    obtain ⟨chars, hc⟩ := ih
    exact ⟨_, hp.trans hc⟩

theorem Laid.length_le {a b : Cursor} {pieces : List Piece} (h : Laid a pieces b) :
    a.offset + pieces.length ≤ b.offset := by
  induction h with
  | nil => exact Nat.le_refl _
  | cons hp hne _ _ ih =>
    have hlt := hp.offset_lt hne
    rw [List.length_cons]
    omega

theorem layout_laid (start : Cursor) : Laid start (layout start).pieces (layout start).after := by
  fun_induction layout start with
  | case1 start hs => exact .nil start
  | case2 start stretch hs next span more ih =>
    have hp := Cursor.passes_skip start stretch.size
    obtain ⟨hpos, hne⟩ := stretch?_pos hs
    refine .cons hp ?_ ?_ ih
    · simp only [Cursor.peek, ne_eq, List.take_eq_nil_iff, not_or]
      exact ⟨hpos.ne', hne⟩
    · simp only [span, next, Span.size, hp.2]
      omega

def Token.Fills (token : Token) (start stop : Cursor) : Prop :=
  ∃ first last : Cursor, Laid start token.leading first ∧
    first.Passes token.text.toList last ∧ token.span = ⟨first.offset, last.offset⟩ ∧
    Laid last token.trailing stop

theorem lex_fills (mode : LexMode) (preceding : Kind) (start : Cursor) :
    (lex mode preceding start).1.Fills start (lex mode preceding start).2 := by
  refine ⟨(layout start).after, (layout start).after.skip
    (scan mode preceding (layout start).after.rest).size, layout_laid start, ?_, rfl,
    layout_laid _⟩
  simp only [lex, String.toList_ofList]
  exact Cursor.passes_skip _ _

theorem Token.Fills.passes {token : Token} {start stop : Cursor} (h : token.Fills start stop) :
    ∃ chars, start.Passes chars stop := by
  obtain ⟨first, last, hl, hp, _, ht⟩ := h
  obtain ⟨front, hf⟩ := hl.passes
  obtain ⟨back, hb⟩ := ht.passes
  exact ⟨_, (hf.trans hp).trans hb⟩

/-- A token that can be read: its span holds its text. -/
theorem Token.Fills.read? {text : String} {token : Token} {start stop : Cursor}
    (h : token.Fills start stop) (hw : start.Within text) :
    token.span.read? text = some token.text := by
  obtain ⟨first, last, hl, hp, hs, _⟩ := h
  obtain ⟨front, hf⟩ := hl.passes
  rw [hs, (hw.passes hf).read?_passes hp, String.ofList_toList]

/-- The end of the text is read where only layout is left. -/
theorem lex_eof {mode : LexMode} {preceding : Kind} {start : Cursor}
    (h : (lex mode preceding start).1.kind = .eof) : (lex mode preceding start).2.rest = [] := by
  have hr : (layout start).after.rest = [] := (scan_kind_eq_eof_iff _ _ _).mp h
  have hp := (layout_laid ((layout start).after.skip
    (scan mode preceding (layout start).after.rest).size)).passes
  obtain ⟨chars, hc⟩ := hp
  have hn : ((layout start).after.skip
      (scan mode preceding (layout start).after.rest).size).rest = [] := by
    simp [Cursor.skip, hr]
  exact (List.append_eq_nil_iff.mp (hc.1.symm.trans hn)).2

/-- Every other token has a character. -/
theorem lex_span_lt {mode : LexMode} {preceding : Kind} {start : Cursor}
    (h : (lex mode preceding start).1.kind ≠ .eof) :
    (lex mode preceding start).1.span.start < (lex mode preceding start).1.span.stop := by
  have hr : (layout start).after.rest ≠ [] := fun he => h ((scan_kind_eq_eof_iff _ _ _).mpr he)
  have hs := (scan_isFull mode preceding hr).2
  have hne :
      (layout start).after.peek (scan mode preceding (layout start).after.rest).size ≠ [] := by
    simp only [Cursor.peek, ne_eq, List.take_eq_nil_iff, not_or]
    exact ⟨by omega, hr⟩
  exact (Cursor.passes_skip _ _).offset_lt hne

/-- Every other token moves forward. -/
theorem lex_offset_lt {mode : LexMode} {preceding : Kind} {start : Cursor}
    (h : (lex mode preceding start).1.kind ≠ .eof) :
    start.offset < (lex mode preceding start).2.offset := by
  have hm := lex_span_lt h
  obtain ⟨first, last, hleading, -, hspan, htrailing⟩ := lex_fills mode preceding start
  obtain ⟨front, hf⟩ := hleading.passes
  obtain ⟨back, hb⟩ := htrailing.passes
  rw [hspan] at hm
  exact Nat.lt_of_le_of_lt hf.offset_le (Nat.lt_of_lt_of_le hm hb.offset_le)

inductive Tiled : Cursor → List Token → Cursor → Prop where
  | nil (cursor : Cursor) : Tiled cursor [] cursor
  | cons {a b c : Cursor} {token : Token} {tokens : List Token} (first : token.Fills a b)
      (rest : Tiled b tokens c) : Tiled a (token :: tokens) c

theorem Tiled.append {a b c : Cursor} {xs ys : List Token} (h : Tiled a xs b)
    (h' : Tiled b ys c) : Tiled a (xs ++ ys) c := by
  induction h with
  | nil _ => exact h'
  | cons first _ ih => exact .cons first (ih h')

theorem Tiled.eq_of_nil {a b : Cursor} (h : Tiled a [] b) : b = a := by
  cases h
  rfl

theorem Tiled.split {a c : Cursor} {xs ys : List Token} (h : Tiled a (xs ++ ys) c) :
    ∃ b, Tiled a xs b ∧ Tiled b ys c := by
  induction xs generalizing a with
  | nil => exact ⟨a, .nil a, h⟩
  | cons token rest ih =>
    cases h with
    | cons first hrest =>
      obtain ⟨b, hxs, hys⟩ := ih hrest
      exact ⟨b, .cons first hxs, hys⟩

theorem Tiled.passes {a b : Cursor} {tokens : List Token} (h : Tiled a tokens b) :
    ∃ chars, a.Passes chars b := by
  induction h with
  | nil cursor => exact ⟨[], Cursor.Passes.refl cursor⟩
  | cons first _ ih =>
    obtain ⟨front, hf⟩ := first.passes
    obtain ⟨back, hb⟩ := ih
    exact ⟨_, hf.trans hb⟩

namespace Lexer

def Placed (lexer : Lexer) : Prop :=
  lexer = place lexer.start lexer.mode lexer.preceding

theorem place_placed (start : Cursor) (mode : LexMode) (preceding : Kind) :
    (place start mode preceding).Placed :=
  rfl

@[simp] theorem place_start (start : Cursor) (mode : LexMode) (preceding : Kind) :
    (place start mode preceding).start = start :=
  rfl

@[simp] theorem advance_start (lexer : Lexer) : lexer.advance.start = lexer.next :=
  rfl

theorem advance_placed (lexer : Lexer) : lexer.advance.Placed :=
  place_placed _ _ _

@[simp] theorem relex_start (lexer : Lexer) (mode : LexMode) :
    (lexer.relex mode).start = lexer.start := by
  unfold relex
  split
  · rfl
  · rfl

/-- Reading again starts over, also in the mode that the lookahead has been read in. -/
theorem Placed.relex_eq {lexer : Lexer} (h : lexer.Placed) (mode : LexMode) :
    lexer.relex mode = place lexer.start mode lexer.preceding := by
  unfold Lexer.relex
  split
  · next hmode =>
    rw [← hmode]
    exact h
  · rfl

theorem Placed.relex {lexer : Lexer} (h : lexer.Placed) (mode : LexMode) :
    (lexer.relex mode).Placed := by
  unfold Lexer.relex
  split
  · exact h
  · exact place_placed _ _ _

theorem Placed.current_eq {lexer : Lexer} (h : lexer.Placed) :
    lexer.current = (lex lexer.mode lexer.preceding lexer.start).1 :=
  congrArg current h

theorem Placed.next_eq {lexer : Lexer} (h : lexer.Placed) :
    lexer.next = (lex lexer.mode lexer.preceding lexer.start).2 :=
  congrArg next h

theorem Placed.fills {lexer : Lexer} (h : lexer.Placed) :
    lexer.current.Fills lexer.start lexer.next := by
  rw [h.current_eq, h.next_eq]
  exact lex_fills _ _ _

/-- A token starts between where its lexer starts and where the next one does. -/
theorem Placed.span_start {lexer : Lexer} (h : lexer.Placed) :
    lexer.start.offset ≤ lexer.current.span.start ∧
      lexer.current.span.start ≤ lexer.next.offset := by
  obtain ⟨first, last, hleading, hpasses, hspan, htrailing⟩ := h.fills
  obtain ⟨front, hfront⟩ := hleading.passes
  obtain ⟨back, hback⟩ := htrailing.passes
  rw [hspan]
  exact ⟨hfront.offset_le, Nat.le_trans hpasses.offset_le hback.offset_le⟩

theorem Placed.offset_le {lexer : Lexer} (h : lexer.Placed) :
    lexer.start.offset ≤ lexer.next.offset := by
  obtain ⟨chars, hc⟩ := h.fills.passes
  exact hc.offset_le

theorem Placed.offset_lt {lexer : Lexer} (h : lexer.Placed) (hk : lexer.current.kind ≠ .eof) :
    lexer.start.offset < lexer.next.offset := by
  rw [h.current_eq] at hk
  rw [h.next_eq]
  exact lex_offset_lt hk

theorem Placed.next_rest {lexer : Lexer} (h : lexer.Placed) (hk : lexer.current.kind = .eof) :
    lexer.next.rest = [] := by
  rw [h.current_eq] at hk
  rw [h.next_eq]
  exact lex_eof hk

/-- A run of a lexer: the tokens that are taken on the way from one lexer to another, while the
lookahead may be read again in any mode. -/
inductive Reads : Lexer → List Token → Lexer → Prop where
  | refl (lexer : Lexer) : Reads lexer [] lexer
  | relex {a b : Lexer} {tokens : List Token} (mode : LexMode) (before : Reads a tokens b) :
      Reads a tokens (b.relex mode)
  | take {a b : Lexer} {tokens : List Token} (before : Reads a tokens b) :
      Reads a (tokens ++ [b.current]) b.advance

theorem Reads.trans {a b c : Lexer} {xs ys : List Token} (h : Reads a xs b) (h' : Reads b ys c) :
    Reads a (xs ++ ys) c := by
  induction h' with
  | refl => simpa using h
  | relex mode _ ih => exact .relex mode ih
  | take _ ih =>
    rw [← List.append_assoc]
    exact .take ih

theorem Reads.placed {a b : Lexer} {tokens : List Token} (h : Reads a tokens b) (ha : a.Placed) :
    b.Placed := by
  induction h with
  | refl => exact ha
  | relex mode _ ih => exact ih.relex mode
  | take _ _ => exact advance_placed _

/-- The tokens of a run lie side by side. -/
theorem Reads.tiled {a b : Lexer} {tokens : List Token} (h : Reads a tokens b) (ha : a.Placed) :
    Tiled a.start tokens b.start := by
  induction h with
  | refl => exact .nil _
  | relex mode _ ih =>
    rw [relex_start]
    exact ih
  | take before ih => exact ih.append (.cons (before.placed ha).fills (.nil _))

/-- The tokens of a run have characters, but for ends of the text. -/
theorem Reads.span_lt {a b : Lexer} {tokens : List Token} (h : Reads a tokens b) (ha : a.Placed)
    {token : Token} (hmem : token ∈ tokens) (hk : token.kind ≠ .eof) :
    token.span.start < token.span.stop := by
  induction h with
  | refl => cases hmem
  | relex mode _ ih => exact ih hmem
  | @take b tokens before ih =>
    rcases List.mem_append.mp hmem with hmem | hmem
    · exact ih hmem
    · obtain rfl := List.mem_singleton.mp hmem
      rw [(before.placed ha).current_eq] at hk ⊢
      exact lex_span_lt hk

def Reached (text : String) (lexer : Lexer) : Prop :=
  ∃ tokens, Reads (ofText text) tokens lexer

theorem reached_ofText (text : String) : (ofText text).Reached text :=
  ⟨[], .refl _⟩

theorem Reached.reads {text : String} {a b : Lexer} {tokens : List Token} (h : a.Reached text)
    (hr : Reads a tokens b) : b.Reached text := by
  obtain ⟨before, hb⟩ := h
  exact ⟨_, hb.trans hr⟩

theorem Reached.placed {text : String} {lexer : Lexer} (h : lexer.Reached text) :
    lexer.Placed := by
  obtain ⟨tokens, hr⟩ := h
  exact hr.placed (place_placed _ _ _)

theorem Reached.within {text : String} {lexer : Lexer} (h : lexer.Reached text) :
    lexer.start.Within text := by
  obtain ⟨tokens, hr⟩ := h
  exact (hr.tiled (place_placed _ _ _)).passes

/-- The lookahead can be read from the text. -/
theorem Reached.read? {text : String} {lexer : Lexer} (h : lexer.Reached text) :
    lexer.current.span.read? text = some lexer.current.text :=
  h.placed.fills.read? h.within

end Lexer

end ScriptTree

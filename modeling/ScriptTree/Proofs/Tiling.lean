import ScriptTree.Proofs.Lexer.Shift
import ScriptTree.Proofs.Tree.Places

/-!
Tokens tile the text. A lexer can be read from, told to read its lookahead again in another mode,
copied, and dropped for one of its copies. Along every line of such a history the tokens that were
taken lie side by side from the front of the text on, layout included, and the end of the text comes
exactly where nothing but layout is left.
-/

namespace ScriptTree

inductive IsLayout : List Char → Prop where
  | nil : IsLayout []
  | cons {chars : List Char} {stretch : Stretch} (first : stretch? chars = some stretch)
      (rest : IsLayout (chars.drop stretch.size)) : IsLayout chars

def cutsFrom (offset : Nat) : List Piece → List Nat
  | [] => []
  | piece :: rest => (offset + piece.size) :: cutsFrom (offset + piece.size) rest

namespace Token

def stop (token : Token) : Nat :=
  token.span.stop + Piece.totalSize token.trailing

def cuts (token : Token) (start : Nat) : List Nat :=
  start :: (cutsFrom start token.leading ++
    token.span.start :: token.span.stop :: cutsFrom token.span.stop token.trailing)

/-- A token lies on the text from an offset on, the layout in front of it first. It is the end of
the text exactly if nothing but layout is to come. -/
structure LiesOn (text : String) (token : Token) (start : Nat) : Prop where
  leading : token.span.start = start + Piece.totalSize token.leading
  reads : token.span.read? text = some token.text
  cuts : ∀ offset ∈ token.cuts start,
    Span.isBoundary text offset = true ∧ offset ≤ text.utf8ByteSize
  full : token.kind ≠ .eof → token.text ≠ ""
  ends : ∃ before after, text.toList = before ++ after ∧ byteCount before = start ∧
    (token.kind = .eof ↔ IsLayout after)

end Token

def TilesFrom (text : String) : Nat → List Token → Prop
  | _, [] => True
  | start, token :: rest => token.LiesOn text start ∧ TilesFrom text token.stop rest

/-- Tokens tile the text from its front on: only the first one has layout in front, behind an end of
the text come only ends of the text, and no more tokens come before it than the text has
characters. -/
structure TilesText (text : String) (tokens : List Token) : Prop where
  tiles : TilesFrom text 0 tokens
  leading : ∀ token ∈ tokens.tail, token.leading = []
  ended : ∀ before token after, tokens = before ++ token :: after → token.kind = .eof →
    ∀ later ∈ after, later.kind = .eof
  ends : ∀ (count : Nat) (token : Token), tokens[count]? = some token → text.length ≤ count →
    token.kind = .eof

/-- A text is layout if the layout at its front comes to its end. -/
theorem isLayout_iff (start : Cursor) :
    IsLayout start.rest ↔ (layout start).after.rest = [] := by
  fun_induction layout start with
  | case1 start hs =>
    refine ⟨fun h => ?_, fun h => h ▸ .nil⟩
    generalize start.rest = chars at h hs
    cases h with
    | nil => rfl
    | cons first _ => cases hs.symm.trans first
  | case2 start stretch hs next span more ih =>
    rw [← ih]
    refine ⟨fun h => ?_, fun h => .cons hs h⟩
    show IsLayout (start.rest.drop stretch.size)
    generalize start.rest = chars at h hs
    cases h with
    | nil => simp [stretch?] at hs
    | cons first rest =>
      obtain rfl := Option.some.inj (hs.symm.trans first)
      exact rest

/-- Layout is read until a character starts none. -/
theorem stretch?_layout (start : Cursor) : stretch? (layout start).after.rest = none := by
  fun_induction layout start with
  | case1 start hs => exact hs
  | case2 start stretch hs next span more ih => exact ih

/-- Every other token takes at least one character. -/
theorem lex_length_lt {mode : LexMode} {preceding : Kind} {start : Cursor}
    (h : (lex mode preceding start).1.kind ≠ .eof) :
    (lex mode preceding start).2.rest.length < start.rest.length := by
  obtain ⟨chars, hrest, hoffset⟩ := (lex_fills mode preceding start).passes
  have hlt := lex_offset_lt h
  have hne : chars ≠ [] := by
    rintro rfl
    simp only [byteCount_nil] at hoffset
    omega
  have hpos := List.length_pos_iff.mpr hne
  have hlength := congrArg List.length hrest
  rw [List.length_append] at hlength
  omega

/-- Pieces of layout are cut off at boundaries of the text. -/
theorem Laid.cuts {text : String} {a b : Cursor} {pieces : List Piece} (h : Laid a pieces b)
    (hw : a.Within text) : ∀ offset ∈ cutsFrom a.offset pieces,
      Span.isBoundary text offset = true ∧ offset ≤ text.utf8ByteSize := by
  induction h with
  | nil => simp [cutsFrom]
  | @cons a b c chars piece pieces hp hne hsize hrest ih =>
    have hb : a.offset + piece.size = b.offset := by rw [hsize, hp.2]
    have hwb := hw.passes hp
    intro offset hmem
    rw [cutsFrom, hb] at hmem
    rcases List.mem_cons.mp hmem with rfl | hmem
    · exact ⟨hwb.isBoundary, hwb.offset_le⟩
    · exact ih hwb offset hmem

namespace Lexer

/-- The lookahead lies on the text where the lexer stands. -/
theorem Reached.liesOn {text : String} {lexer : Lexer} (h : lexer.Reached text) :
    lexer.current.LiesOn text lexer.start.offset ∧ lexer.current.stop = lexer.next.offset := by
  have hcurrent := h.placed.current_eq
  obtain ⟨first, last, hleading, hpasses, hspan, htrailing⟩ := h.placed.fills
  obtain ⟨front, hfront⟩ := hleading.passes
  have hstart := h.within
  have hfirst := hstart.passes hfront
  have hlast := hfirst.passes hpasses
  have hat {cursor : Cursor} (hw : cursor.Within text) :
      Span.isBoundary text cursor.offset = true ∧ cursor.offset ≤ text.utf8ByteSize :=
    ⟨hw.isBoundary, hw.offset_le⟩
  refine ⟨⟨?_, h.read?, ?_, ?_, ?_⟩, ?_⟩
  · rw [hspan]
    exact hleading.offset_eq
  · intro offset hmem
    simp only [Token.cuts, hspan, List.mem_cons, List.mem_append] at hmem
    rcases hmem with rfl | hmem | rfl | rfl | hmem
    · exact hat hstart
    · exact hleading.cuts hstart offset hmem
    · exact hat hfirst
    · exact hat hlast
    · exact htrailing.cuts hlast offset hmem
  · intro hkind hempty
    have hrest : (layout lexer.start).after.rest ≠ [] := by
      rw [hcurrent] at hkind
      exact fun he => hkind ((scan_kind_eq_eof_iff _ _ _).mpr he)
    have hsize := (scan_isFull lexer.mode lexer.preceding hrest).2
    rw [hcurrent] at hempty
    have hnil := congrArg String.toList hempty
    simp only [lex, String.toList_ofList, Cursor.peek, String.toList_empty,
      List.take_eq_nil_iff] at hnil
    rcases hnil with hzero | hnil
    · omega
    · exact hrest hnil
  · obtain ⟨before, hbefore, hoffset⟩ := hstart
    refine ⟨before, lexer.start.rest, hbefore, ?_, ?_⟩
    · simpa [Cursor.ofText] using hoffset.symm
    · rw [hcurrent, isLayout_iff]
      exact scan_kind_eq_eof_iff _ _ _
  · rw [Token.stop, hspan]
    exact htrailing.offset_eq.symm

/-- Behind a token that was taken no layout starts: it belongs to that token. -/
theorem Reads.stretch?_eq_none {a b : Lexer} {tokens : List Token} (h : Reads a tokens b)
    (ha : a.Placed) (hne : tokens ≠ []) : stretch? b.start.rest = none := by
  induction h with
  | refl => exact absurd rfl hne
  | relex mode _ ih =>
    rw [relex_start]
    exact ih hne
  | take before _ =>
    rw [advance_start, (before.placed ha).next_eq]
    exact stretch?_layout _

/-- Where no character is left, only ends of the text are read. -/
theorem Reads.ended {a b : Lexer} {tokens : List Token} (h : Reads a tokens b) (ha : a.Placed)
    (hrest : a.start.rest = []) : b.start.rest = [] ∧ ∀ token ∈ tokens, token.kind = .eof := by
  induction h with
  | refl => exact ⟨hrest, fun _ hmem => absurd hmem List.not_mem_nil⟩
  | relex mode _ ih =>
    rw [relex_start]
    exact ih
  | @take b tokens before ih =>
    obtain ⟨hstart, hkinds⟩ := ih
    have hplaced := before.placed ha
    have hafter : (layout b.start).after.rest = [] :=
      (isLayout_iff b.start).mp (hstart ▸ .nil)
    have hkind : b.current.kind = .eof := by
      simp only [hplaced.current_eq, lex]
      exact (scan_kind_eq_eof_iff _ _ _).mpr hafter
    refine ⟨hplaced.next_rest hkind, ?_⟩
    intro token hmem
    rcases List.mem_append.mp hmem with hmem | hmem
    · exact hkinds token hmem
    · rw [List.mem_singleton.mp hmem]
      exact hkind

/-- The tokens of a run are those before one of them, the lookahead at some lexer of the run, and
those that are read from behind it on. -/
theorem Reads.cut {a c : Lexer} {before after : List Token} {token : Token}
    (h : Reads a (before ++ token :: after) c) :
    ∃ b, Reads a before b ∧ b.current = token ∧ Reads b.advance after c := by
  generalize htokens : before ++ token :: after = tokens at h
  induction h generalizing after with
  | refl => simp at htokens
  | relex mode _ ih =>
    obtain ⟨b, hbefore, hcurrent, hafter⟩ := ih htokens
    exact ⟨b, hbefore, hcurrent, .relex mode hafter⟩
  | @take d tokens hreads ih =>
    -- the token is the one that was taken last, or one of those before
    rcases List.eq_nil_or_concat after with rfl | ⟨front, last, rfl⟩
    · obtain ⟨rfl, hlast⟩ := List.append_inj' htokens rfl
      exact ⟨d, hreads, (List.cons.inj hlast).1.symm, .refl _⟩
    · rw [List.concat_eq_append, ← List.cons_append, ← List.append_assoc] at htokens
      obtain ⟨hfront, hlast⟩ := List.append_inj' htokens rfl
      obtain ⟨b, hbefore, hcurrent, hafter⟩ := ih hfront
      obtain rfl := (List.cons.inj hlast).1
      rw [List.concat_eq_append]
      exact ⟨b, hbefore, hcurrent, .take hafter⟩

theorem Placed.length_lt {lexer : Lexer} (h : lexer.Placed) (hkind : lexer.current.kind ≠ .eof) :
    lexer.advance.start.rest.length < lexer.start.rest.length := by
  rw [h.current_eq] at hkind
  rw [advance_start, h.next_eq]
  exact lex_length_lt hkind

/-- Tokens other than ends of the text take a character each. -/
theorem Reads.length_le {a b : Lexer} {tokens : List Token} (h : Reads a tokens b) (ha : a.Placed)
    (hkinds : ∀ token ∈ tokens, token.kind ≠ .eof) :
    tokens.length + b.start.rest.length ≤ a.start.rest.length := by
  induction h with
  | refl => simp
  | relex mode _ ih =>
    rw [relex_start]
    exact ih hkinds
  | @take b tokens before ih =>
    have hfirst := ih fun token hmem => hkinds token (List.mem_append_left _ hmem)
    have hplaced := before.placed ha
    have hlt := hplaced.length_lt (hkinds b.current (List.mem_append_right _ List.mem_cons_self))
    rw [List.length_append, List.length_singleton]
    omega

/-- The tokens of a run lie side by side on the text. -/
theorem Reads.tilesFrom {text : String} {a b : Lexer} {tokens : List Token} (h : Reads a tokens b)
    (ha : a.Reached text) : TilesFrom text a.start.offset tokens := by
  induction tokens generalizing a with
  | nil => trivial
  | cons token rest ih =>
    have hcut : Reads a ([] ++ token :: rest) b := h
    obtain ⟨c, hbefore, rfl, hafter⟩ := hcut.cut
    have hc := ha.reads hbefore
    have hstart : c.start = a.start := (hbefore.tiled ha.placed).eq_of_nil
    obtain ⟨hlies, hstop⟩ := hc.liesOn
    refine ⟨hstart ▸ hlies, ?_⟩
    rw [hstop]
    exact ih hafter (hc.reads (.take (.refl c)))

/-- By induction on the run: each token lies where the one before it has stopped, and behind the end
of the text there is nothing to take. -/
theorem Reads.tilesText {text : String} {lexer : Lexer} {tokens : List Token}
    (h : Reads (ofText text) tokens lexer) : TilesText text tokens := by
  have hfront : (ofText text).Placed := place_placed _ _ _
  have hended : ∀ before token after, tokens = before ++ token :: after → token.kind = .eof →
      ∀ later ∈ after, later.kind = .eof := by
    rintro before token after rfl hkind
    obtain ⟨b, hbefore, rfl, hafter⟩ := h.cut
    have hrest := (hbefore.placed hfront).next_rest hkind
    exact (hafter.ended (advance_placed b) hrest).2
  refine ⟨h.tilesFrom (reached_ofText text), ?_, hended, ?_⟩
  · intro token hmem
    have hne : tokens ≠ [] := List.ne_nil_of_mem (List.mem_of_mem_tail hmem)
    obtain ⟨first, rest, rfl⟩ := List.exists_cons_of_ne_nil hne
    obtain ⟨front, back, rfl⟩ := List.append_of_mem hmem
    have hcut : Reads (ofText text) ((first :: front) ++ token :: back) lexer := h
    obtain ⟨b, hbefore, rfl, -⟩ := hcut.cut
    have hnone := hbefore.stretch?_eq_none hfront (List.cons_ne_nil _ _)
    rw [(hbefore.placed hfront).current_eq]
    show (layout b.start).pieces = []
    rw [layout_of_none hnone]
  · intro count token hget hle
    by_contra hkind
    obtain ⟨hlt, htoken⟩ := List.getElem?_eq_some_iff.mp hget
    have hsplit : tokens = tokens.take count ++ token :: tokens.drop (count + 1) := by
      rw [← htoken, List.getElem_cons_drop, List.take_append_drop]
    have hreads := h
    rw [hsplit] at hreads
    obtain ⟨b, hbefore, hcurrent, -⟩ := hreads.cut
    -- an end of the text before this token would make it one, too
    have hfull : ∀ held ∈ tokens.take count ++ [token], held.kind ≠ .eof := by
      intro held hmem heof
      rcases List.mem_append.mp hmem with hmem | hmem
      · obtain ⟨front, back, hcut⟩ := List.append_of_mem hmem
        rw [hcut, List.append_assoc, List.cons_append] at hsplit
        exact hkind (hended front held _ hsplit heof token (by simp))
      · rw [List.mem_singleton.mp hmem] at heof
        exact hkind heof
    have hlength := (Reads.take hbefore).length_le hfront (hcurrent ▸ hfull)
    have htext : (ofText text).start.rest.length = text.length := String.length_toList
    rw [List.length_append, List.length_singleton, List.length_take, htext] at hlength
    omega

/-- What can be done with a lexer: take its lookahead, read the lookahead again in a mode, keep a
copy of the lexer, or go on with a copy that was kept. -/
inductive Use where
  | next
  | relex (mode : LexMode)
  | clone
  | resume (index : Nat)
  deriving DecidableEq, Repr, Inhabited

structure Line where
  lexer : Lexer
  taken : List Token

/-- The line that is in use, and the copies that were kept, in the order of keeping. -/
structure History where
  current : Line
  clones : List Line

namespace History

def ofText (text : String) : History :=
  ⟨⟨.ofText text, []⟩, []⟩

/-- Uses the lexer once. A copy keeps the line that it was made on, and can be resumed more than
once. -/
def step (history : History) : Use → History
  | .next =>
    let line := history.current
    { history with current := ⟨line.lexer.advance, line.taken ++ [line.lexer.current]⟩ }
  | .relex mode =>
    let line := history.current
    { history with current := { line with lexer := line.lexer.relex mode } }
  | .clone => { history with clones := history.clones ++ [history.current] }
  | .resume index =>
    match history.clones[index]? with
    | none => history
    | some line => { history with current := line }

def run (history : History) (uses : List Use) : History :=
  uses.foldl step history

def lines (history : History) : List Line :=
  history.current :: history.clones

/-- Every line of a history is a run from the front of the text. -/
def Reads (text : String) (history : History) : Prop :=
  ∀ line ∈ history.lines, Lexer.Reads (.ofText text) line.taken line.lexer

/-- Whatever is done with a lexer, every line remains a run from the front of the text. -/
theorem Reads.step {text : String} {history : History} (h : history.Reads text) (use : Use) :
    (history.step use).Reads text := by
  have hcurrent := h history.current List.mem_cons_self
  have hclones (line : Line) (hmem : line ∈ history.clones) := h line (List.mem_cons_of_mem _ hmem)
  intro line hmem
  cases use with
  | next =>
    rcases List.mem_cons.mp hmem with rfl | hmem
    · exact .take hcurrent
    · exact hclones line hmem
  | relex mode =>
    rcases List.mem_cons.mp hmem with rfl | hmem
    · exact .relex mode hcurrent
    · exact hclones line hmem
  | clone =>
    rcases List.mem_cons.mp hmem with rfl | hmem
    · exact hcurrent
    rcases List.mem_append.mp hmem with hmem | hmem
    · exact hclones line hmem
    · rw [List.mem_singleton.mp hmem]
      exact hcurrent
  | resume index =>
    simp only [History.step] at hmem
    split at hmem
    · exact h line hmem
    · next resumed hget =>
      rcases List.mem_cons.mp hmem with rfl | hmem
      · exact hclones line (List.mem_of_getElem? hget)
      · exact hclones line hmem

theorem reads_run (text : String) (uses : List Use) : ((ofText text).run uses).Reads text := by
  have hfold (history : History) (h : history.Reads text) : (history.run uses).Reads text := by
    induction uses generalizing history with
    | nil => exact h
    | cons use rest ih => exact ih (history.step use) (h.step use)
  apply hfold
  intro line hmem
  rw [List.mem_singleton.mp hmem]
  exact .refl _

end History

/-- However a lexer is used, the tokens that were taken along any one line of its history tile the
text, and all offsets have 32 bits if the text is that short. -/
theorem history_tiles {text : String} (h : text.utf8ByteSize < 2 ^ 32) (uses : List Use) :
    ∀ line ∈ ((History.ofText text).run uses).lines, TilesText text line.taken ∧
      ∀ token ∈ line.taken, token.stop < 2 ^ 32 := by
  intro line hmem
  have hreads := History.reads_run text uses line hmem
  refine ⟨hreads.tilesText, ?_⟩
  intro token htoken
  obtain ⟨before, after, hcut⟩ := List.append_of_mem htoken
  rw [hcut] at hreads
  obtain ⟨b, hbefore, rfl, -⟩ := hreads.cut
  have hreached : b.Reached text := ⟨before, hbefore⟩
  rw [hreached.liesOn.2]
  exact Nat.lt_of_le_of_lt (hreached.reads (.take (.refl b))).within.offset_le h

/-- A copy is kept, the lookahead `>>` is split and half of it taken, and the copy is resumed. -/
theorem history_tiles_resumed : "a>> b".utf8ByteSize < 2 ^ 32 ∧
    (((History.ofText "a>> b").run
      [.next, .clone, .relex .angle, .next, .clone, .resume 0, .next]).lines.map
        fun line => line.taken.map (·.text)) = [["a", ">>"], ["a"], ["a", ">"]] ∧
    ∀ line ∈ ((History.ofText "a>> b").run
      [.next, .clone, .relex .angle, .next, .clone, .resume 0, .next]).lines,
      TilesText "a>> b" line.taken ∧ ∀ token ∈ line.taken, token.stop < 2 ^ 32 :=
  ⟨by decide, by decide +kernel, history_tiles (by decide) _⟩

end Lexer

end ScriptTree

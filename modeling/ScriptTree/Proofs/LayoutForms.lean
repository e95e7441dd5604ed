import Mathlib.Data.List.Infix
import Mathlib.Data.List.TakeWhile
import ScriptTree.Proofs.Lexer.Fault
import ScriptTree.Proofs.Lexer.Standing
import ScriptTree.Proofs.Tree.Lay

/-!
The forms of layout. Each kind of layout has a form that a stretch of text either has or has not,
however the text is read. Around the tokens of a text stand pieces of layout in the forms of their
kinds, a run of white space is one piece, and no token starts where any of the forms does.
-/

namespace ScriptTree

open Text

/-- Characters have the form of a kind of layout where they stand in front of `after`. A comment in
a line goes up to the end of the line, and a block comment up to the first closing mark behind its
opening mark, or up to the end of the text if there is none. -/
inductive TriviaKind.Spells : TriviaKind → List Char → List Char → Prop where
  | newline (after : List Char) : Spells .newline ['\n'] after
  | whitespace {taken : List Char} (after : List Char) (full : taken ≠ [])
      (blank : ∀ c ∈ taken, isBlank c = true ∧ c ≠ '\n') : Spells .whitespace taken after
  | lineComment {body after : List Char} (line : '\n' ∉ body)
      (ends : after = [] ∨ after.head? = some '\n') : Spells .lineComment ('/' :: '/' :: body) after
  | blockComment {body after : List Char}
      (first : ∀ front back, body ++ '*' :: '/' :: after = front ++ '*' :: '/' :: back →
        body.length ≤ front.length) :
      Spells .blockComment ('/' :: '*' :: (body ++ ['*', '/'])) after
  | openComment {body : List Char} (unclosed : ¬ ['*', '/'] <:+: body) :
      Spells .blockComment ('/' :: '*' :: body) []
  | continuation (after : List Char) : Spells .lineContinuation ['\\', '\n'] after
  | continuationWithReturn (after : List Char) :
      Spells .lineContinuation ['\\', '\r', '\n'] after

def TriviaEntry.IsFormed (text : String) (entry : TriviaEntry) : Prop :=
  ∃ before taken after, text.toList = before ++ (taken ++ after) ∧
    byteCount before = entry.span.start ∧ byteCount (before ++ taken) = entry.span.stop ∧
    entry.kind.Spells taken after

def Token.layoutEntries (token : Token) : List TriviaEntry :=
  entriesFrom (token.span.start - Piece.totalSize token.leading) token.leading ++
    entriesFrom token.span.stop token.trailing

/-- All layout of a text is told apart from its tokens, and one kind of layout from the others. -/
structure ClassifiesLayout (text : String) (tokens : List Token) : Prop where
  formed : ∀ entry ∈ tokens.flatMap Token.layoutEntries, entry.IsFormed text
  apart : ∀ entry ∈ tokens.flatMap Token.layoutEntries,
    ∀ other ∈ tokens.flatMap Token.layoutEntries, entry.kind = .whitespace →
      other.kind = .whitespace → entry.span.stop ≠ other.span.start
  solid : ∀ token ∈ tokens, ∃ after, token.StandsBefore text after ∧
    ∀ kind taken behind, token.text.toList ++ after = taken ++ behind →
      ¬ TriviaKind.Spells kind taken behind

/-- A comment that is closed goes up to the first closing mark. -/
theorem commentRun_of_closed {chars : List Char} (h : (commentRun chars).2 = true) :
    ∃ body after, chars = body ++ '*' :: '/' :: after ∧ (commentRun chars).1 = body.length + 2 ∧
      ∀ front back, chars = front ++ '*' :: '/' :: back → body.length ≤ front.length := by
  fun_induction commentRun chars with
  | case1 => cases h
  | case2 rest => exact ⟨[], rest, rfl, rfl, fun _ _ _ => Nat.zero_le _⟩
  | case3 c rest hend size closed hrun ih =>
    rw [hrun] at ih
    obtain ⟨body, after, rfl, hsize, hfirst⟩ := ih h
    refine ⟨c :: body, after, rfl, congrArg (· + 1) hsize, ?_⟩
    intro front back hsplit
    cases front with
    | nil =>
      obtain ⟨rfl, htail⟩ := List.cons.inj hsplit
      exact absurd htail (hend back rfl)
    | cons head front =>
      obtain ⟨rfl, htail⟩ := List.cons.inj hsplit
      exact Nat.succ_le_succ (hfirst front back htail)

/-- A comment that is left open has no closing mark. -/
theorem not_infix_of_open {chars : List Char} (h : (commentRun chars).2 = false) :
    ¬ ['*', '/'] <:+: chars := by
  fun_induction commentRun chars with
  | case1 => simp
  | case2 rest => cases h
  | case3 c rest hend size closed hrun ih =>
    rw [hrun] at ih
    rw [List.infix_cons_iff, not_or]
    refine ⟨?_, ih h⟩
    rintro ⟨tail, htail⟩
    obtain ⟨rfl, hrest⟩ := List.cons.inj htail
    exact hend tail rfl hrest.symm

namespace TriviaKind.Spells

/-- A line comment is what is read up to its line break. -/
theorem of_lineComment (rest : List Char) {size : Nat}
    (hsize : size = (('/' :: '/' :: rest).takeWhile (· != '\n')).length) :
    Spells .lineComment (('/' :: '/' :: rest).take size) (('/' :: '/' :: rest).drop size) := by
  let body := rest.takeWhile (· != '\n')
  have htaken : ('/' :: '/' :: rest).takeWhile (· != '\n') = '/' :: '/' :: body := by
    simp [body]
  have htake : ('/' :: '/' :: rest).take size = '/' :: '/' :: body := by
    rw [hsize, ← List.prefix_iff_eq_take.mp (List.takeWhile_prefix _), htaken]
  rw [htake]
  refine .lineComment (fun hmem => ?_) ?_
  · have hbreak := List.mem_takeWhile_imp hmem
    cases hbreak
  · rw [hsize, drop_length_takeWhile]
    have hhead := List.head?_dropWhile_not (· != '\n') ('/' :: '/' :: rest)
    cases hafter : ('/' :: '/' :: rest).dropWhile (· != '\n') with
    | nil => exact .inl rfl
    | cons c more =>
      rw [hafter] at hhead
      exact .inr (congrArg some (bne_eq_false_iff_eq.mp hhead))

/-- A block comment is what is read up to its end, or up to that of the text. -/
theorem of_blockComment (rest : List Char) :
    Spells .blockComment (('/' :: '*' :: rest).take (2 + (commentRun rest).1))
      (('/' :: '*' :: rest).drop (2 + (commentRun rest).1)) := by
  rw [Nat.add_comm, List.take_succ_cons, List.take_succ_cons, List.drop_succ_cons,
    List.drop_succ_cons]
  cases hclosed : (commentRun rest).2 with
  | true =>
    obtain ⟨body, after, rfl, hsize, hfirst⟩ := commentRun_of_closed hclosed
    have hsplit : body ++ '*' :: '/' :: after = (body ++ ['*', '/']) ++ after := by simp
    have hlength : body.length + 2 = (body ++ ['*', '/']).length := by simp
    rw [hsize, hlength, hsplit, List.take_left, List.drop_left]
    exact .blockComment hfirst
  | false =>
    rw [commentRun_of_open hclosed, List.take_length, List.drop_length]
    exact .openComment (not_infix_of_open hclosed)

/-- White space is what is read up to a line break or another character. -/
theorem of_whitespace {c : Char} (rest : List Char) (hblank : isBlank c = true)
    (hbreak : c ≠ '\n') {size : Nat}
    (hsize : size = ((c :: rest).takeWhile isInlineBlank).length) :
    Spells .whitespace ((c :: rest).take size) ((c :: rest).drop size) := by
  have hinline : isInlineBlank c = true := by
    simp [isInlineBlank, hblank, hbreak]
  rw [hsize, ← List.prefix_iff_eq_take.mp (List.takeWhile_prefix _)]
  refine .whitespace _ ?_ fun d hmem => ?_
  · rw [List.takeWhile_cons_of_pos hinline]
    exact List.cons_ne_nil _ _
  · have hd := List.mem_takeWhile_imp hmem
    simpa [isInlineBlank] using hd

/-- The piece of layout that is read at the front of some characters has the form of its kind. -/
theorem of_stretch? {chars : List Char} {stretch : Stretch} (h : stretch? chars = some stretch) :
    stretch.kind.Spells (chars.take stretch.size) (chars.drop stretch.size) := by
  unfold stretch? at h
  split at h
  case h_1 rest =>
    obtain rfl := Option.some.inj h
    exact of_lineComment rest rfl
  case h_2 rest =>
    obtain rfl := Option.some.inj h
    exact of_blockComment rest
  case h_3 rest =>
    obtain rfl := Option.some.inj h
    exact .newline rest
  case h_4 rest =>
    obtain rfl := Option.some.inj h
    exact .continuation rest
  case h_5 rest =>
    obtain rfl := Option.some.inj h
    exact .continuationWithReturn rest
  case h_6 c rest hslash hstar hbreak hline hreturn =>
    split at h
    · next hblank =>
      obtain rfl := Option.some.inj h
      exact of_whitespace rest hblank hbreak rfl
    · cases h
  case h_7 => cases h

/-- Where a form of layout starts, a piece of layout is read. -/
theorem isSome_stretch? {kind : TriviaKind} {taken after : List Char}
    (h : kind.Spells taken after) : (stretch? (taken ++ after)).isSome = true := by
  cases h with
  | whitespace after full blank =>
    obtain ⟨c, rest, rfl⟩ := List.exists_cons_of_ne_nil full
    obtain ⟨hblank, hbreak⟩ := blank c List.mem_cons_self
    rw [List.cons_append]
    unfold stretch?
    split <;> simp_all
  | _ => simp [stretch?]

end TriviaKind.Spells

/-- White space is read from a blank up to the first character that is none. -/
theorem blanks_of_stretch? {chars : List Char} {stretch : Stretch}
    (h : stretch? chars = some stretch) (hkind : stretch.kind = .whitespace) :
    (∃ c rest, chars = c :: rest ∧ isInlineBlank c = true) ∧
      stretch.size = (chars.takeWhile isInlineBlank).length := by
  unfold stretch? at h
  split at h
  case h_6 c rest hslash hstar hbreak hline hreturn =>
    split at h
    · next hblank =>
      obtain rfl := Option.some.inj h
      have hne : c ≠ '\n' := hbreak
      exact ⟨⟨c, rest, rfl, by simp [isInlineBlank, hblank, hne]⟩, rfl⟩
    · cases h
  case h_7 => cases h
  -- the other forms give other kinds of layout
  all_goals
    obtain rfl := Option.some.inj h
    cases hkind

/-- Two positions of a text at one offset are the same. -/
theorem Cursor.Within.eq {text : String} {a b : Cursor} (ha : a.Within text) (hb : b.Within text)
    (hoffset : a.offset = b.offset) : a = b := by
  obtain ⟨front, hrest, hfront⟩ := ha
  obtain ⟨front', hrest', hfront'⟩ := hb
  have hbytes : byteCount front = byteCount front' := by omega
  have hsplit : front ++ a.rest = front' ++ b.rest := hrest.symm.trans hrest'
  -- one of the two parts in front starts with the other, and no byte is left between them
  rcases List.append_eq_append_iff.mp hsplit with
    ⟨between, rfl, hbetween⟩ | ⟨between, rfl, hbetween⟩
  all_goals
    have hnil : between = [] := by
      by_contra hne
      have hpos := byteCount_pos hne
      rw [byteCount_append] at hbytes
      omega
    subst hnil
  · exact (Passes.eq_of_nil ⟨hbetween, hoffset.symm⟩).symm
  · exact Passes.eq_of_nil ⟨hbetween, hoffset⟩

def TriviaEntry.ReadAt (entry : TriviaEntry) (place : Cursor) : Prop :=
  ∃ stretch, stretch? place.rest = some stretch ∧
    entry = ⟨stretch.kind, ⟨place.offset, (place.skip stretch.size).offset⟩⟩

/-- All pieces of layout were read, one after the other. -/
theorem exists_readAt {text : String} {start : Cursor} (h : start.Within text) {entry : TriviaEntry}
    (hmem : entry ∈ entriesFrom start.offset (layout start).pieces) :
    ∃ place : Cursor, place.Within text ∧ entry.ReadAt place := by
  fun_induction layout start with
  | case1 start hs => cases hmem
  | case2 start stretch hs next span more ih =>
    have hpasses : start.Passes (start.peek stretch.size) next := Cursor.passes_skip _ _
    have hoffset : start.offset + span.size = next.offset := by
      have hle := hpasses.offset_le
      simp only [span, Span.size]
      omega
    rw [entriesFrom, Span.sized, hoffset] at hmem
    rcases List.mem_cons.mp hmem with rfl | hmem
    · exact ⟨start, h, stretch, hs, rfl⟩
    · exact ih (h.passes hpasses) hmem

namespace TriviaEntry.ReadAt

variable {text : String} {entry other : TriviaEntry} {place place' : Cursor}

theorem isFormed (h : entry.ReadAt place) (hplace : place.Within text) : entry.IsFormed text := by
  obtain ⟨stretch, hfound, rfl⟩ := h
  obtain ⟨before, hrest, hoffset⟩ := hplace
  have hstart : byteCount before = place.offset := by simpa [Cursor.ofText] using hoffset.symm
  refine ⟨before, place.rest.take stretch.size, place.rest.drop stretch.size, ?_, hstart, ?_,
    .of_stretch? hfound⟩
  · rw [List.take_append_drop]
    exact hrest
  · rw [byteCount_append, hstart]
    rfl

/-- White space is taken up to its end, so no further white space was read there. -/
theorem stop_ne_start (h : entry.ReadAt place) (h' : other.ReadAt place')
    (hplace : place.Within text) (hplace' : place'.Within text) (hkind : entry.kind = .whitespace)
    (hkind' : other.kind = .whitespace) : entry.span.stop ≠ other.span.start := by
  obtain ⟨stretch, hfound, rfl⟩ := h
  obtain ⟨stretch', hfound', rfl⟩ := h'
  intro hoffset
  obtain rfl : place.skip stretch.size = place' :=
    (hplace.passes (Cursor.passes_skip _ _)).eq hplace' hoffset
  obtain ⟨-, hsize⟩ := blanks_of_stretch? hfound hkind
  obtain ⟨⟨c, rest, hrest, hblank⟩, -⟩ := blanks_of_stretch? hfound' hkind'
  have hhead := List.head?_dropWhile_not isInlineBlank place.rest
  have hdrop : place.rest.dropWhile isInlineBlank = c :: rest := by
    rw [← drop_length_takeWhile, ← hsize]
    exact hrest
  rw [hdrop] at hhead
  exact absurd hblank (Bool.eq_false_iff.mp hhead)

end TriviaEntry.ReadAt

namespace Lexer

/-- The layout around the lookahead was read piece by piece. -/
theorem Reached.exists_readAt {text : String} {lexer : Lexer} (h : lexer.Reached text)
    {entry : TriviaEntry} (hmem : entry ∈ lexer.current.layoutEntries) :
    ∃ place : Cursor, place.Within text ∧ entry.ReadAt place := by
  have hfront := (layout_laid lexer.start).offset_eq
  rw [Token.layoutEntries, h.placed.leading_eq, h.placed.trailing_eq, h.placed.span_eq, hfront,
    Nat.add_sub_cancel] at hmem
  rcases List.mem_append.mp hmem with hmem | hmem
  · exact ScriptTree.exists_readAt h.within hmem
  · exact ScriptTree.exists_readAt h.stop_within hmem

/-- No form of layout starts where the lookahead does. -/
theorem not_spells {lexer : Lexer} {kind : TriviaKind} {taken behind : List Char}
    (hsplit : lexer.toScan = taken ++ behind) :
    ¬ kind.Spells taken behind := by
  intro hspells
  have hsome := hspells.isSome_stretch?
  rw [← hsplit, toScan, stretch?_layout] at hsome
  cases hsome

end Lexer

/-- Every piece of layout around the tokens of a text has the form of its kind: a line break is one
character, white space a run of blanks within a line, a comment in a line goes up to the end of the
line, a block comment up to its first closing mark or the end of the text, and a line continuation
is a backslash in front of a line break. No white space directly follows other white space, and no
token, the end of the text included, stands where one of these forms starts. -/
theorem tokenize_classifiesLayout (text : String) : ClassifiesLayout text (tokenize text) where
  formed entry hmem := by
    obtain ⟨token, htoken, hentry⟩ := List.mem_flatMap.mp hmem
    obtain ⟨lexer, hreached, rfl⟩ := exists_reached_of_mem_tokenize htoken
    obtain ⟨place, hplace, hread⟩ := hreached.exists_readAt hentry
    exact hread.isFormed hplace
  apart entry hmem other hmem' hkind hkind' := by
    obtain ⟨token, htoken, hentry⟩ := List.mem_flatMap.mp hmem
    obtain ⟨token', htoken', hentry'⟩ := List.mem_flatMap.mp hmem'
    obtain ⟨lexer, hreached, rfl⟩ := exists_reached_of_mem_tokenize htoken
    obtain ⟨lexer', hreached', rfl⟩ := exists_reached_of_mem_tokenize htoken'
    obtain ⟨place, hplace, hread⟩ := hreached.exists_readAt hentry
    obtain ⟨place', hplace', hread'⟩ := hreached'.exists_readAt hentry'
    exact hread.stop_ne_start hread' hplace hplace' hkind hkind'
  solid token hmem := by
    obtain ⟨lexer, hreached, rfl⟩ := exists_reached_of_mem_tokenize hmem
    refine ⟨_, hreached.standsBefore, fun kind taken behind hsplit => ?_⟩
    rw [hreached.placed.text_eq, List.take_append_drop] at hsplit
    exact Lexer.not_spells hsplit

end ScriptTree

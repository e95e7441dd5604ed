import Mathlib.Data.Option.Basic
import ScriptTree.Proofs.Lexer.Standing
import ScriptTree.Proofs.Parser.Extent
import ScriptTree.Proofs.Reported

/-!
Where reports are placed. A report of the grammar is about a lookahead of some lexer, be it of a
reading that was taken back, and a lexical report is about a token or about a comment next to it.
All of these lie between boundaries of the text. The reports of a parse are in the order of their
places.
-/

namespace ScriptTree

structure Span.LiesIn (text : String) (span : Span) : Prop where
  ordered : span.start ≤ span.stop
  stop_le : span.stop ≤ text.utf8ByteSize
  start_boundary : isBoundary text span.start = true
  stop_boundary : isBoundary text span.stop = true

/-- What is passed between two positions of a text is a stretch of it. -/
theorem Cursor.Within.liesIn {text : String} {a b : Cursor} {chars : List Char} (h : a.Within text)
    (hp : a.Passes chars b) : (⟨a.offset, b.offset⟩ : Span).LiesIn text where
  ordered := hp.offset_le
  stop_le := (h.passes hp).offset_le
  start_boundary := h.isBoundary
  stop_boundary := (h.passes hp).isBoundary

theorem Token.Fills.liesIn {text : String} {token : Token} {start stop : Cursor}
    (h : token.Fills start stop) (hw : start.Within text) : token.span.LiesIn text := by
  obtain ⟨first, last, hleading, hpasses, hspan, -⟩ := h
  obtain ⟨front, hfront⟩ := hleading.passes
  rw [hspan]
  exact (hw.passes hfront).liesIn hpasses

/-- A comment that is left open lies in the text. -/
theorem liesIn_of_layout {text : String} {start : Cursor} (hw : start.Within text)
    {error : LexError} (h : (layout start).error = some error) : error.span.LiesIn text := by
  fun_induction layout start with
  | case1 start hs => cases h
  | case2 start stretch hs next span more ih =>
    have hpasses := Cursor.passes_skip start stretch.size
    dsimp only at h
    split at h
    · exact ih (hw.passes hpasses) h
    · obtain rfl := Option.some.inj h
      exact hw.liesIn hpasses

/-- What is wrong with a token, or with the layout around it, lies in the text. -/
theorem liesIn_of_lex {text : String} {mode : LexMode} {preceding : Kind} {start : Cursor}
    (hw : start.Within text) {error : LexError}
    (h : (lex mode preceding start).1.error = some error) : error.span.LiesIn text := by
  let first := (layout start).after
  let found := scan mode preceding first.rest
  let stop := first.skip found.size
  have hspan : (lex mode preceding start).1.span.LiesIn text :=
    (lex_fills mode preceding start).liesIn hw
  obtain ⟨chars, hfront⟩ := (layout_laid start).passes
  have hstop : stop.Within text := (hw.passes hfront).passes (Cursor.passes_skip first found.size)
  have herror : (lex mode preceding start).1.error = ((layout stop).error <|>
      (found.fault.map (⟨·, (lex mode preceding start).1.span⟩)) <|> (layout start).error) := rfl
  simp only [herror, Option.orElse_eq_some] at h
  rcases h with hback | ⟨-, hfault | ⟨-, hopen⟩⟩
  · exact liesIn_of_layout hstop hback
  · obtain ⟨fault, -, rfl⟩ := Option.map_eq_some_iff.mp hfault
    exact hspan
  · exact liesIn_of_layout hw hopen

namespace Lexer

variable {text : String} {lexer : Lexer}

theorem Reached.liesIn (h : lexer.Reached text) : lexer.current.span.LiesIn text :=
  h.placed.fills.liesIn h.within

theorem Reached.liesIn_error (h : lexer.Reached text) {error : LexError}
    (he : lexer.current.error = some error) : error.span.LiesIn text := by
  rw [h.placed.current_eq] at he
  exact liesIn_of_lex h.within he

/-- What a lexer of a text meets lies in the text, and so does what is wrong with it. -/
theorem Meets.liesIn {token : Token} (h : lexer.Meets token) (hl : lexer.Reached text) :
    token.span.LiesIn text ∧ ∀ error, token.error = some error → error.span.LiesIn text := by
  obtain ⟨tokens, seen, hreads, rfl⟩ := h
  have hseen := hl.reads hreads
  exact ⟨hseen.liesIn, fun error => hseen.liesIn_error⟩

end Lexer

namespace Grammar

open Phrase

theorem seenFrom_fileReading (text : String) (limit : Nat) :
    (fileReading text limit).SeenFrom (Lexer.ofText text) :=
  SeesAhead.phrase (accounts_drawRule grammar _) (seesAhead_drawRule grammar _) fileItems
    (.ofText text limit)

/-- The reports of a file lie in its text. -/
theorem liesIn_of_mem_reports {text : String} {limit : Nat} {report : Diagnostic}
    (h : report ∈ (readFile text limit).reports) : report.span.LiesIn text := by
  have hseen := seenFrom_fileReading text limit
  have hstart := Lexer.reached_ofText text
  rw [reports_readFile, List.mem_mergeSort, List.mem_append] at h
  rcases h with hitems | hlexical
  · obtain ⟨token, hmeets, hspan⟩ := hseen.reports report hitems
    exact hspan ▸ (hmeets.liesIn hstart).1
  · obtain ⟨error, hmem, rfl⟩ := List.mem_map.mp hlexical
    obtain ⟨token, htoken, herror⟩ := List.mem_filterMap.mp hmem
    simp only [fileShape, Shape.tokens, Shape.tokensAll_append, Shape.tokensAll_singleton,
      List.mem_append, List.mem_singleton] at htoken
    -- the end of the text is no token of an item
    rcases htoken with htoken | rfl
    · rcases hseen.errors token htoken with hnone | hmeets
      · rw [hnone] at herror
        cases herror
      · exact (hmeets.liesIn hstart).2 error herror
    · obtain ⟨tokens, hreads, -⟩ := (accounted_fileReading text limit).reads
      exact (hstart.reads hreads).liesIn_error herror

theorem pairwise_reports (text : String) (limit : Nat) :
    (readFile text limit).reports.Pairwise fun a b => a.span.start ≤ b.span.start := by
  refine (List.pairwise_mergeSort ?_ ?_ _).imp of_decide_eq_true
  · simp only [decide_eq_true_eq]
    exact fun a b c => Nat.le_trans
  · simp only [Bool.or_eq_true, decide_eq_true_eq]
    exact fun a b => Nat.le_total _ _

end Grammar

/-- The reports of a parse are in the order of the places where they start. Each of them is about a
stretch between two boundaries of the text, in the right order. -/
theorem parse_reports_placed {text : String} {limit : Nat} {parse : Parse}
    (h : parseWith text limit = .ok parse) :
    parse.diagnostics.Pairwise (fun a b => a.span.start ≤ b.span.start) ∧
    ∀ report ∈ parse.diagnostics, report.span.LiesIn text := by
  obtain ⟨tree, hparse, -⟩ := parseWith_eq (size_lt_of_parseWith h) limit
  obtain rfl := Except.ok.inj (hparse.symm.trans h)
  refine ⟨Grammar.pairwise_reports text limit, fun report hmem => ?_⟩
  exact Grammar.liesIn_of_mem_reports hmem

/-- A class without a name is reported by the grammar. Behind it the lexer reports a comment that is
left open, with a character of two bytes at its end. -/
theorem parse_reports_placed_openComment :
    ∃ parse, parseWith "class ; int a; /* \u00e9" 8 = .ok parse ∧
      ⟨.lexical, "unterminated block comment", ⟨15, 20⟩⟩ ∈ parse.diagnostics ∧
      (⟨15, 20⟩ : Span).LiesIn "class ; int a; /* \u00e9" := by
  obtain ⟨tree, hparse, -⟩ :=
    parseWith_eq (show "class ; int a; /* \u00e9".utf8ByteSize < UInt32.size by decide) 8
  have hopen : ⟨.lexical, "unterminated block comment", ⟨15, 20⟩⟩ ∈
      (readFile "class ; int a; /* \u00e9" 8).reports := by
    rw [ParseState.reports, List.mem_mergeSort]
    decide +kernel
  exact ⟨_, hparse, hopen, (parse_reports_placed hparse).2 _ hopen⟩

end ScriptTree

import ScriptTree.Proofs.Tiling

/-!
Where tokens stand. Whatever use is made of a lexer, each token that it gives was scanned at some
place of the text: the characters of the token are the first ones there, and those behind it have
not been read yet.
-/

namespace ScriptTree

def Token.StandsBefore (text : String) (token : Token) (after : List Char) : Prop :=
  ∃ before, text.toList = before ++ (token.text.toList ++ after) ∧
    byteCount before = token.span.start

namespace Lexer

def toScan (lexer : Lexer) : List Char :=
  (layout lexer.start).after.rest

def found (lexer : Lexer) : Scan :=
  scan lexer.mode lexer.preceding lexer.toScan

def stop (lexer : Lexer) : Cursor :=
  (layout lexer.start).after.skip lexer.found.size

theorem Placed.kind_eq {lexer : Lexer} (h : lexer.Placed) :
    lexer.current.kind = lexer.found.kind := by
  rw [h.current_eq]
  rfl

theorem Placed.text_eq {lexer : Lexer} (h : lexer.Placed) :
    lexer.current.text.toList = lexer.toScan.take lexer.found.size := by
  rw [h.current_eq]
  exact String.toList_ofList

theorem Placed.span_eq {lexer : Lexer} (h : lexer.Placed) :
    lexer.current.span = ⟨(layout lexer.start).after.offset, lexer.stop.offset⟩ := by
  rw [h.current_eq]
  rfl

theorem Placed.leading_eq {lexer : Lexer} (h : lexer.Placed) :
    lexer.current.leading = (layout lexer.start).pieces := by
  rw [h.current_eq]
  rfl

theorem Placed.trailing_eq {lexer : Lexer} (h : lexer.Placed) :
    lexer.current.trailing = (layout lexer.stop).pieces := by
  rw [h.current_eq]
  rfl

theorem Placed.next_eq_after {lexer : Lexer} (h : lexer.Placed) :
    lexer.next = (layout lexer.stop).after := by
  rw [h.next_eq]
  rfl

theorem Reached.stop_within {text : String} {lexer : Lexer} (h : lexer.Reached text) :
    lexer.stop.Within text := by
  obtain ⟨chars, hpasses⟩ := (layout_laid lexer.start).passes
  exact (h.within.passes hpasses).passes (Cursor.passes_skip _ _)

/-- The lookahead stands before what was not scanned for it. -/
theorem Reached.standsBefore {text : String} {lexer : Lexer} (h : lexer.Reached text) :
    lexer.current.StandsBefore text (lexer.toScan.drop lexer.found.size) := by
  obtain ⟨front, hfront⟩ := (layout_laid lexer.start).passes
  obtain ⟨before, hrest, hoffset⟩ := h.within.passes hfront
  refine ⟨before, ?_, ?_⟩
  · rw [h.placed.text_eq, List.take_append_drop]
    exact hrest
  · rw [h.placed.span_eq]
    simpa [Cursor.ofText] using hoffset.symm

/-- A token that was taken on a run was the lookahead at some lexer of the run. -/
theorem Reads.exists_reached {text : String} {tokens : List Token} {last : Lexer}
    (h : Reads (ofText text) tokens last) {token : Token} (hmem : token ∈ tokens) :
    ∃ lexer : Lexer, lexer.Reached text ∧ lexer.current = token := by
  obtain ⟨before, after, rfl⟩ := List.append_of_mem hmem
  obtain ⟨lexer, hbefore, hcurrent, -⟩ := h.cut
  exact ⟨lexer, ⟨before, hbefore⟩, hcurrent⟩

/-- Collecting tokens is a run. -/
theorem exists_reads_collect (lexer : Lexer) (limit : Nat) :
    ∃ last, Reads lexer (lexer.collect limit) last := by
  induction limit generalizing lexer with
  | zero => exact ⟨lexer, .refl lexer⟩
  | succ limit ih =>
    have hfirst : Reads lexer [lexer.current] lexer.advance := .take (.refl lexer)
    rw [collect]
    split
    · exact ⟨_, hfirst⟩
    · obtain ⟨last, hrest⟩ := ih lexer.advance
      exact ⟨last, hfirst.trans hrest⟩

end Lexer

/-- The tokens of a text are those of a run from its front. -/
theorem exists_reads_tokenize (text : String) :
    ∃ last, Lexer.Reads (.ofText text) (tokenize text) last :=
  Lexer.exists_reads_collect _ _

theorem exists_reached_of_mem_tokenize {text : String} {token : Token}
    (h : token ∈ tokenize text) : ∃ lexer : Lexer, lexer.Reached text ∧ lexer.current = token := by
  obtain ⟨last, hreads⟩ := exists_reads_tokenize text
  exact hreads.exists_reached h

/-- Collecting reads every token as an ordinary one if it does so with the first. -/
theorem Lexer.exists_plain_of_mem_collect {text : String} {lexer : Lexer} {limit : Nat}
    {token : Token} (h : lexer.Reached text) (hmode : lexer.mode = .plain)
    (hmem : token ∈ lexer.collect limit) :
    ∃ plain : Lexer, plain.Reached text ∧ plain.mode = .plain ∧ plain.current = token := by
  induction limit generalizing lexer with
  | zero => cases hmem
  | succ limit ih =>
    rw [collect] at hmem
    split at hmem
    · obtain rfl := List.mem_singleton.mp hmem
      exact ⟨lexer, h, hmode, rfl⟩
    · rcases List.mem_cons.mp hmem with rfl | hmem
      · exact ⟨lexer, h, hmode, rfl⟩
      · exact ih (h.reads (.take (.refl lexer))) rfl hmem

theorem exists_plain_of_mem_tokenize {text : String} {token : Token} (h : token ∈ tokenize text) :
    ∃ lexer : Lexer, lexer.Reached text ∧ lexer.mode = .plain ∧ lexer.current = token :=
  Lexer.exists_plain_of_mem_collect (Lexer.reached_ofText text) rfl h

end ScriptTree

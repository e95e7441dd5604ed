import ScriptTree.Proofs.Grammar.Alike
import ScriptTree.Proofs.Lexer.Abreast
import ScriptTree.Proofs.Tree.Alike

/-!
Layout does not count. Texts whose tokens are the same, with layout behind the same ones, have trees
with the same nodes and tokens and the same reports in the same order, as long as they do not
mention states. What the layout is makes no difference, and neither do the places.
-/

namespace ScriptTree

open Text Grammar

structure Token.Resembles (marks : List (Nat × Nat)) (a b : Token) : Prop where
  face : b.face = a.face
  place : (a.span.start, b.span.start) ∈ marks
  error : ∃ fault : Option LexFault,
    a.error = fault.map (⟨·, a.span⟩) ∧ b.error = fault.map (⟨·, b.span⟩)

theorem Token.Resembles.fields {marks : List (Nat × Nat)} {a b : Token} (h : a.Resembles marks b) :
    b.kind = a.kind ∧ b.text = a.text ∧ b.trailing.isEmpty = a.trailing.isEmpty := by
  simpa only [Token.face, Prod.mk.injEq] using h.face

namespace Lexer

structure Abreast (marks : List (Nat × Nat)) (a b : Lexer) : Prop where
  mode : b.mode = a.mode
  ordinary : a.mode = .plain ∨ a.mode = .angle
  preceding : b.preceding = a.preceding
  closed : (layout a.start).error = none
  closed' : (layout b.start).error = none
  cursors : ∃ later ⊆ marks,
    Cursor.Abreast a.preceding (layout a.start).after (layout b.start).after later

namespace Abreast

variable {marks : List (Nat × Nat)} {a b : Lexer}

theorem relex (h : Abreast marks a b) : Abreast marks (a.relex .angle) (b.relex .angle) := by
  unfold Lexer.relex
  rw [h.mode]
  split
  · exact h
  · exact ⟨rfl, .inr rfl, h.preceding, h.closed, h.closed', h.cursors⟩

/-- Lexers abreast stay so when both take their lookaheads. -/
theorem advance (h : Abreast marks a b) (ha : a.Placed) (hb : b.Placed) :
    Abreast marks a.advance b.advance := by
  obtain ⟨marks', hsub, hcursors⟩ := h.cursors
  obtain ⟨hpaired, later, hlater, hrest⟩ := hcursors.step h.ordinary rfl rfl
  have hnext := ha.next_eq
  have hnext' := hb.next_eq
  rw [h.mode, h.preceding] at hnext'
  have hkind : b.current.kind = a.current.kind := by
    rw [ha.current_eq, hb.current_eq, h.mode, h.preceding]
    exact hpaired.kind
  have hcurrent : a.current.kind = (scan a.mode a.preceding (layout a.start).after.rest).kind := by
    rw [ha.current_eq]
    rfl
  refine ⟨rfl, .inl rfl, hkind, ?_, ?_, later, List.Subset.trans hlater hsub, ?_⟩
  · rw [advance_start, hnext, layout_lex]
  · rw [advance_start, hnext', layout_lex]
  · rw [advance_start, advance_start, hnext, hnext', layout_lex, layout_lex]
    change Cursor.Abreast a.current.kind _ _ _
    rw [hcurrent]
    exact hrest

/-- The lookaheads of lexers abreast resemble each other. -/
theorem current (h : Abreast marks a b) (ha : a.Placed) (hb : b.Placed) :
    a.current.Resembles marks b.current := by
  obtain ⟨marks', hsub, hcursors⟩ := h.cursors
  obtain ⟨hpaired, -⟩ := hcursors.step h.ordinary rfl rfl
  rw [ha.current_eq, hb.current_eq, h.mode, h.preceding]
  refine ⟨?_, hsub hcursors.mem_marks, (scan a.mode a.preceding (layout a.start).after.rest).fault,
    ?_, ?_⟩
  · have htext := congrArg String.ofList hpaired.spelling
    exact Prod.ext hpaired.kind (Prod.ext htext hpaired.glued)
  · simp only [lex, hpaired.closed, h.closed]
    cases (scan a.mode a.preceding (layout a.start).after.rest).fault <;> rfl
  · simp only [lex, hpaired.closed', h.closed', hpaired.fault]
    cases (scan a.mode a.preceding (layout a.start).after.rest).fault <;> rfl

end Abreast

end Lexer

def relayout {text : String} (text' : String) {marks : List (Nat × Nat)}
    (hmarks : Cursor.Ascend marks) (hfree : ¬ Mentions text "states") : Likeness text text' where
  lexer a b := a.Reached text ∧ b.Reached text' ∧ a.Abreast marks b
  token a b := a.Resembles marks b
  place a b := (a.start, b.start) ∈ marks
  verbatim := True
  reached := fun h => ⟨h.1, h.2.1⟩
  stateless := fun h => h.1.kind_ne_statesKw hfree
  advance := by
    rintro a b ⟨ha, hb, habreast⟩
    exact ⟨ha.reads (.take (.refl _)), hb.reads (.take (.refl _)),
      habreast.advance ha.placed hb.placed⟩
  angle := by
    rintro a b ⟨ha, hb, habreast⟩
    exact ⟨ha.reads (.relex _ (.refl _)), hb.reads (.relex _ (.refl _)), habreast.relex⟩
  current := by
    rintro a b ⟨ha, hb, habreast⟩
    exact habreast.current ha.placed hb.placed
  kind := fun h => h.fields.1
  glued := fun h => h.fields.2.2
  word := fun h => by rw [h.fields.2.1]
  spelling := fun h _ => h.fields.2.1
  span := fun h => h.place
  error := by
    intro a b h
    obtain ⟨fault, ha, hb⟩ := h.error
    rw [ha, hb]
    cases fault with
    | none => exact .none
    | some fault => exact .some ⟨rfl, h.place⟩
  cleared := fun h => ⟨h.face, h.place, none, rfl, rfl⟩
  ordered := fun hab hcd => hmarks.le_iff hab hcd

/-- Texts with the same tokens, and with layout behind the same ones, are abreast from the front. -/
theorem exists_abreast_ofText {text text' : String}
    (hface : (tokenize text').map Token.face = (tokenize text).map Token.face)
    (hclosed : ∀ token ∈ tokenize text, token.Closed)
    (hclosed' : ∀ token ∈ tokenize text', token.Closed) :
    ∃ marks, Cursor.Ascend marks ∧ (Lexer.ofText text).Abreast marks (.ofText text') := by
  have hlimit (text : String) : (Cursor.ofText text).rest.length < text.length + 1 := by
    rw [Cursor.ofText, String.length_toList]
    omega
  have hfront {text : String} (h : ∀ token ∈ tokenize text, token.Closed) :
      (layout (Cursor.ofText text)).error = none := by
    have hmem : (lex .plain .eof (Cursor.ofText text)).1 ∈ tokenize text := by
      rw [tokenize, Lexer.collect_succ]
      exact List.mem_cons_self
    exact (closed_of_lex (h _ hmem)).1
  obtain ⟨marks, hcursors⟩ :=
    Lexer.exists_abreast (hlimit text) (hlimit text') hface hclosed hclosed'
  exact ⟨marks, hcursors.ascend.1, rfl, .inl rfl, rfl, hfront hclosed, hfront hclosed', marks,
    List.Subset.refl _, hcursors⟩

/-- The trees of two texts with the same tokens are the same but for places and layout, and so are
the reports but for their places, if layout follows the same tokens in both texts. -/
theorem parse_relaid {text text' : String}
    (hface : (tokenize text').map Token.face = (tokenize text).map Token.face)
    (hclosed : ∀ token ∈ tokenize text, token.Closed)
    (hclosed' : ∀ token ∈ tokenize text', token.Closed) (hfree : ¬ Mentions text "states")
    (hsize : text.utf8ByteSize < UInt32.size) (hsize' : text'.utf8ByteSize < UInt32.size)
    (limit : Nat) :
    ∃ parse parse', parseWith text limit = .ok parse ∧ parseWith text' limit = .ok parse' ∧
      parse'.tree.bare = parse.tree.bare ∧
      parse'.diagnostics.map (fun report => (report.kind, report.message)) =
        parse.diagnostics.map fun report => (report.kind, report.message) := by
  obtain ⟨tree, hparse, -⟩ := parseWith_eq hsize limit
  obtain ⟨tree', hparse', -⟩ := parseWith_eq hsize' limit
  obtain ⟨marks, hmarks, habreast⟩ := exists_abreast_ofText hface hclosed hclosed'
  have hstart : (relayout text' hmarks hfree).lexer (.ofText text) (.ofText text') :=
    ⟨Lexer.reached_ofText text, Lexer.reached_ofText text', habreast⟩
  refine ⟨_, _, hparse, hparse', ?_, ?_⟩
  · -- the steps that build the trees differ in layout and in sizes only
    have hview : Shape.Overlooks (relayout text' hmarks hfree).token BuildStep.bare := by
      intro a b hab field
      rw [BuildStep.bare, BuildStep.bare, hab.fields.1]
    have hsteps := (alike_fileShape hstart limit).map_steps hview
    exact Tree.bare_eq_of_assemble (assemble_of_parseWith hparse)
      (assemble_of_parseWith hparse') hsteps
  · show (readFile text' limit).reports.map _ = (readFile text limit).reports.map _
    symm
    rw [← List.forall₂_eq_eq_eq, List.forall₂_map_left_iff, List.forall₂_map_right_iff]
    refine (alike_reports hstart limit).imp fun a b hab => ?_
    rw [hab.kind, hab.message trivial]

/-- A field whose type ends in `>>`, and one that lacks its semicolon, with line breaks and comments
in place of blanks. -/
theorem parse_fields_relaid : ∃ parse parse',
    parseWith "class A{array<array<int>> x;int y}" 20 = .ok parse ∧
      parseWith "//\nclass\nA{array<array<int>>/**/x;int  y}" 20 = .ok parse' ∧
      parse'.tree.bare = parse.tree.bare ∧
      parse'.diagnostics.map (fun report => (report.kind, report.message)) =
        parse.diagnostics.map fun report => (report.kind, report.message) :=
  parse_relaid (by decide +kernel) (by decide +kernel) (by decide +kernel) (by decide +kernel)
    (by decide) (by decide) 20

end ScriptTree

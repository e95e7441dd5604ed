import ScriptTree.Proofs.Lossless
import ScriptTree.Proofs.Parser.Answer

/-!
No error is silent: what is wrong with a text shows in the reports. There is a report for each error
node, stray characters stand in error nodes only, and a parse without reports has read tokens that
nothing is wrong with.
-/

namespace ScriptTree

def LexError.report (error : LexError) : Diagnostic :=
  ⟨.lexical, error.fault.message, error.span⟩

/-- What is wrong with the tokens of a growth is what its events say. -/
theorem Growth.errors_events {growth : Growth} (h : growth.IsSound) (forward : Option Nat) :
    (growth.events forward).filterMap Event.error? =
      (Shape.tokensAll growth.shapes).filterMap (·.error) := by
  have hbracket (kind : Kind) (forward : Option Nat) (field : Option Field) (list : List Event) :
      (.start kind forward field :: (list ++ [.finish])).filterMap Event.error? =
        list.filterMap Event.error? := by
    simp [List.filterMap_cons, Event.error?]
  induction growth generalizing forward with
  | nil => rfl
  | token before held field ih =>
    simp [events, shapes, ih h, Shape.tokens, Event.error?, List.filterMap_cons]
  | blank before ih => simp [events, shapes, ih h, Event.error?, Event.blank]
  | node before kind field body ih ih' =>
    rw [events, List.filterMap_append, hbracket, ih h.1, ih' h.2.2]
    simp [shapes, Shape.tokens]
  | wrap before kind field body ih ih' =>
    rw [events, List.filterMap_append, hbracket, ih h.1, ih' h.2.2.2, shapes, Shape.tokensAll_wrap,
      List.filterMap_append]

namespace Grammar

open Phrase

theorem answers_grammar (rule : Rule) : (grammar rule).answers = true := by
  cases rule with
  | expression least => cases least <;> decide
  | _ => decide

theorem answers_fileItems : fileItems.answers = true := by
  decide

theorem answered_fileReading (text : String) (limit : Nat) :
    (fileReading text limit).Answered :=
  Answers.phrase (accounts_drawRule grammar _) (answers_drawRule answers_grammar _)
    answers_fileItems _

/-- The error nodes of a file are those of its items. -/
theorem count_fileShape (text : String) (limit : Nat) :
    (fileShape text limit).count .error =
      Shape.countAll .error (fileReading text limit).shapes := by
  simp [fileShape, Shape.count]

/-- The reports of a file, in the order of their places: those of its items, and what is wrong with
its tokens. -/
theorem reports_readFile (text : String) (limit : Nat) :
    (readFile text limit).reports =
      ((fileReading text limit).reports ++
        ((fileShape text limit).tokens.filterMap (·.error)).map LexError.report).mergeSort
        fun a b => a.span.start ≤ b.span.start := by
  obtain ⟨growth, hsound, hshapes, hevents, hdiagnostics, -⟩ := readFile_eq text limit
  have herrors := Growth.errors_events hsound none
  rw [hshapes, Shape.tokensAll_singleton] at herrors
  rw [ParseState.reports, hdiagnostics, hevents, ← herrors, List.map_filterMap]
  rfl

/-- A report of the items is a report of the file. -/
theorem mem_reports {text : String} {limit : Nat} {report : Diagnostic}
    (h : report ∈ (fileReading text limit).reports) : report ∈ (readFile text limit).reports := by
  rw [reports_readFile, List.mem_mergeSort]
  exact List.mem_append_left _ h

/-- There is a report for each report of the items and for each token with something wrong. -/
theorem length_reports (text : String) (limit : Nat) :
    (readFile text limit).reports.length = (fileReading text limit).reports.length +
      ((fileShape text limit).tokens.filterMap (·.error)).length := by
  rw [reports_readFile, List.length_mergeSort, List.length_append, List.length_map]

/-- In the tree of a file, stray characters stand in error nodes only. -/
theorem all_encloses_fileShape (text : String) (limit : Nat) :
    (fileShape text limit).All Shape.Encloses := by
  obtain ⟨hstray, hall⟩ := (covers_fileReading text limit).tidy rfl
  refine ⟨Or.inr ?_, Shape.allOf_append.mpr ⟨hall, trivial, trivial⟩⟩
  intro child hmem
  rcases List.mem_append.mp hmem with hmem | hmem
  · exact hstray child hmem
  · obtain rfl := List.mem_singleton.mp hmem
    simp [Shape.isStray, fileReading_eof]

end Grammar

/-- Every element that shows shapes side by side shows one of them. -/
theorem Shape.ShownAll.exists_of_mem {tree : Tree} {base : Nat} {shapes : List Shape}
    {elements : List Element} (h : ShownAll tree base shapes elements) {element : Element}
    (hmem : element ∈ elements) : ∃ shape ∈ shapes, shape.Shown tree base element := by
  induction shapes generalizing elements with
  | nil =>
    rw [ShownAll] at h
    simp [h] at hmem
  | cons shape rest ih =>
    rw [ShownAll] at h
    obtain ⟨first, more, rfl, hshape, hrest⟩ := h
    rcases List.mem_cons.mp hmem with rfl | hmem
    · exact ⟨shape, List.mem_cons_self, hshape⟩
    · obtain ⟨shape', hmem', hshown⟩ := ih hrest hmem
      exact ⟨shape', List.mem_cons_of_mem _ hmem', hshown⟩

/-- A stray character of a tree is a child of an error node. -/
theorem Tree.Draws.stray_parent {tree : Tree} {shape : Shape} (h : tree.Draws shape)
    (hall : shape.All Shape.Encloses) {id : TokenId} (hid : id < tree.leafCount)
    (hkind : (tree.leaf id).kind = .unknown) :
    (tree.leaf id).parent < tree.nodeCount ∧ tree.kind (tree.leaf id).parent = .error ∧
      .token id ∈ tree.elements (tree.leaf id).parent := by
  have hleaf : tree.leaves[id]? = some (tree.leaf id) := by
    rw [Tree.leaf, Array.getD_eq_getD_getElem?, Array.getElem?_eq_getElem hid]
    rfl
  obtain ⟨node, elements, hlists, hmem⟩ := h.housed id _ hleaf
  have hparent : (tree.leaf id).parent < tree.nodeCount :=
    (Array.getElem?_eq_some_iff.mp hlists.entry).1
  obtain ⟨kind, field, children, hencloses, hshown⟩ := h.covered _ hall _ hparent
  obtain ⟨hkind', hchildren⟩ := Tree.kind_eq hshown
  rw [← hlists.elements] at hmem
  refine ⟨hparent, ?_, hmem⟩
  rw [hkind']
  refine hencloses.resolve_right fun hnone => ?_
  obtain ⟨child, hchild, hshown'⟩ := hchildren.exists_of_mem hmem
  cases child with
  | node _ _ _ =>
    obtain ⟨_, _, _, he, _⟩ := hshown'
    cases he
  | leaf token slot =>
    obtain ⟨id', leaf, he, hleaf', hkind', -⟩ := hshown'
    obtain rfl := Element.token.inj he
    have hstray := hnone _ hchild
    rw [Tree.leaf_eq hleaf'] at hkind
    simp [Shape.isStray, ← hkind', hkind] at hstray

def Tree.errorCount (tree : Tree) : Nat :=
  (List.range tree.nodeCount).countP fun id => tree.kind id == .error

theorem Tree.Draws.errorCount_eq {tree : Tree} {shape : Shape} (h : tree.Draws shape) :
    tree.errorCount = shape.count .error := by
  have hkinds : (List.range tree.nodeCount).map tree.kind = shape.kinds := by
    rw [← h.kinds]
    apply List.ext_getElem
    · simp [Tree.nodeCount]
    · intro i hi hi'
      have hlt : i < tree.nodes.size := by simpa using hi'
      simp [Tree.kind, Tree.node, Array.getD, hlt]
  rw [← Shape.count_kinds, ← hkinds, List.count_eq_countP, List.countP_map]
  rfl

open Grammar

/-- The tree of a parse has at most as many error nodes as there are reports, and its stray
characters are children of error nodes. Without reports there is neither of them, and the tokens of
the tree are tokens that the lexer has read with nothing wrong: no literal and no comment among them
was left open. -/
theorem parse_errors_reported {text : String} {limit : Nat} {parse : Parse}
    (h : parseWith text limit = .ok parse) :
    parse.tree.errorCount ≤ parse.diagnostics.length ∧
    (∀ id < parse.tree.leafCount, (parse.tree.leaf id).kind = .unknown →
      parse.tree.kind (parse.tree.leaf id).parent = .error ∧
        .token id ∈ parse.tree.elements (parse.tree.leaf id).parent) ∧
    (parse.diagnostics = [] →
      (∀ id < parse.tree.nodeCount, parse.tree.kind id ≠ .error) ∧
      (∀ id < parse.tree.leafCount, (parse.tree.leaf id).kind ≠ .unknown) ∧
      ∃ tokens lexer, Lexer.Reads (Lexer.ofText text) tokens lexer ∧
        parse.tree.leaves.toList.map Leaf.place = tokens.map Token.place ∧
        ∀ token ∈ tokens, token.error = none) := by
  obtain ⟨tree, hparse, -, hdraws⟩ := parseWith_eq (size_lt_of_parseWith h) limit
  obtain rfl := Except.ok.inj (hparse.symm.trans h)
  have hcount := hdraws.errorCount_eq.trans (count_fileShape text limit)
  have hanswered := (answered_fileReading text limit).errors_le
  have hlength := length_reports text limit
  have hstray {id : TokenId} (hid : id < tree.leafCount) :=
    hdraws.stray_parent (all_encloses_fileShape text limit) hid
  refine ⟨?_, fun id hid hkind => (hstray hid hkind).2, fun hnone => ?_⟩
  · show tree.errorCount ≤ (readFile text limit).reports.length
    omega
  · change (readFile text limit).reports = [] at hnone
    rw [hnone, List.length_nil] at hlength
    have hzero : Shape.countAll .error (fileReading text limit).shapes = 0 := by omega
    have hnodes : ∀ id < tree.nodeCount, tree.kind id ≠ .error := by
      rw [hzero, Tree.errorCount, List.countP_eq_zero] at hcount
      intro id hid
      simpa using hcount id (List.mem_range.mpr hid)
    refine ⟨hnodes, ?_, ?_⟩
    · intro id hid hkind
      obtain ⟨hparent, hparent', -⟩ := hstray hid hkind
      exact hnodes _ hparent hparent'
    · obtain ⟨tokens, hreads, -, -, hexact⟩ := (accounted_fileReading text limit).reads
      have htokens : (fileShape text limit).tokens =
          tokens ++ [(fileReading text limit).lexer.current] := by
        simp [fileShape, Shape.tokens, hexact hzero]
      refine ⟨_, _, .take hreads, ?_, ?_⟩
      · rw [← htokens]
        exact hdraws.tokens
      · rw [← htokens]
        intro token hmem
        have hempty : (fileShape text limit).tokens.filterMap (·.error) = [] :=
          List.eq_nil_of_length_eq_zero (by omega)
        exact List.filterMap_eq_nil_iff.mp hempty token hmem

/-- A text with a stray character. -/
theorem parse_stray_reported : ∃ parse, parseWith "class @" 0 = .ok parse ∧
    parse.tree.errorCount ≤ parse.diagnostics.length := by
  obtain ⟨tree, hparse, -⟩ :=
    parseWith_eq (show "class @".utf8ByteSize < UInt32.size by decide) 0
  exact ⟨_, hparse, (parse_errors_reported hparse).1⟩

end ScriptTree

import ScriptTree.Proofs.BoundedRecursion
import ScriptTree.Proofs.Parser.Bounded
import ScriptTree.Proofs.Tree.Compact

/-!
Parsing loses nothing: every text has a tree whose tokens, with the layout around them, are the
text, as long as the events of the parse can be counted with 32 bits. Texts that need more of them
exist, and are refused.
-/

namespace ScriptTree

open Grammar

/-- The tokens of a file are no ends of the text, but for the last one. -/
theorem Grammar.fileShape_kinds (text : String) (limit : Nat) :
    ∃ kinds : List Kind, (fileShape text limit).tokens.map (·.kind) = kinds ++ [.eof] ∧
      .eof ∉ kinds := by
  obtain ⟨tokens, -, heof, hclear, -⟩ := (accounted_fileReading text limit).reads
  refine ⟨tokens.map (·.kind), ?_, ?_⟩
  · have hkinds := congrArg (List.map Token.kind) hclear
    simp only [List.map_map, Function.comp_def, Token.cleared_kind] at hkinds
    simp [fileShape, Shape.tokens, hkinds, fileReading_eof]
  · intro hmem
    obtain ⟨token, ht, hk⟩ := List.mem_map.mp hmem
    exact heof token ht hk

theorem Tree.kind_eq {tree : Tree} {base : Nat} {kind : Kind} {field : Option Field}
    {children : List Shape} {id : NodeId}
    (h : Shape.Shown tree base (.node kind field children) (.node id)) :
    tree.kind id = kind ∧ Shape.ShownAll tree base children (tree.elements id) := by
  obtain ⟨id', node, elements, he, -, hlists, hkind, -, hall⟩ := h
  obtain rfl := Element.node.inj he
  refine ⟨?_, ?_⟩
  · rw [Tree.kind, Tree.node_eq hlists.entry, hkind]
  · rw [hlists.elements]
    exact hall

/-- In a tree with one end of the text, which comes last, no other token is one. -/
theorem Tree.eof_unique {tree : Tree} {kinds : List Kind}
    (h : tree.leaves.toList.map (·.kind) = kinds ++ [.eof]) (hn : .eof ∉ kinds) {id : TokenId}
    (hid : id < tree.leafCount) : (tree.leaf id).kind = .eof ↔ id = kinds.length := by
  have hleaf : (kinds ++ [.eof])[id]? = some (tree.leaf id).kind := by
    rw [← h, List.getElem?_map, Array.getElem?_toList, Tree.leaf, Array.getD_eq_getD_getElem?,
      Array.getElem?_eq_getElem hid]
    rfl
  constructor
  · intro hk
    rw [hk] at hleaf
    by_contra hne
    rcases Nat.lt_or_gt_of_ne hne with hlt | hgt
    · rw [List.getElem?_append_left hlt] at hleaf
      exact hn (List.mem_of_getElem? hleaf)
    · rw [List.getElem?_append_right (Nat.le_of_lt hgt), List.getElem?_eq_none (by simp; omega)]
        at hleaf
      cases hleaf
  · rintro rfl
    simpa using hleaf.symm

/-- A parse keeps a text: the root of its tree is a file, and its last child is the only end of the
text in the tree. The tokens with the layout around them can be read, and make up the text. -/
structure Parse.Keeps (parse : Parse) (text : String) : Prop where
  source : parse.tree.text = text
  root : parse.tree.kind Tree.root = .sourceFile
  ends : ∃ last < parse.tree.leafCount,
    (parse.tree.elements Tree.root).getLast? = some (.token last) ∧
    ∀ id < parse.tree.leafCount, (parse.tree.leaf id).kind = .eof ↔ id = last
  reads : ∃ parts, (List.range parse.tree.leafCount).map
    (fun id => (parse.tree.leafSpan id).read? text) = parts.map some ∧ String.join parts = text
  readable : parse.tree.isReadable = true

/-- A tree that shows the file that was read keeps its text. -/
theorem Parse.keeps_of_draws {tree : Tree} {text : String} {limit : Nat}
    {diagnostics : List Diagnostic} (htext : tree.text = text)
    (hdraws : tree.Draws (fileShape text limit)) : Keeps ⟨tree, diagnostics⟩ text := by
  obtain ⟨kinds, hkinds, hnot⟩ := fileShape_kinds text limit
  obtain ⟨hroot, hall⟩ := Tree.kind_eq hdraws.shown
  have hleaves : tree.leaves.toList.map (·.kind) = kinds ++ [.eof] := by
    have := congrArg (List.map Prod.fst) hdraws.tokens
    rw [List.map_map, List.map_map] at this
    exact this.trans hkinds
  refine ⟨htext, hroot, ?_, ?_, hdraws.readable⟩
  · obtain ⟨front, back, hfront, -, hback⟩ := hall.split
    obtain ⟨element, more, rfl, ⟨id, leaf, rfl, hleaf, hkind, -⟩, rfl⟩ := hback
    have hid : id < tree.leafCount := (Array.getElem?_eq_some_iff.mp hleaf).1
    have heof : (tree.leaf id).kind = .eof := by
      rw [Tree.leaf_eq hleaf, hkind]
      exact fileReading_eof text limit
    have hlast := (Tree.eof_unique hleaves hnot hid).mp heof
    refine ⟨id, hid, ?_, ?_⟩
    · show (tree.elements Tree.root).getLast? = _
      rw [hfront]
      simp
    · intro other hother
      rw [hlast]
      exact Tree.eof_unique hleaves hnot hother
  · obtain ⟨parts, hparts, hjoin⟩ := hdraws.reads
    rw [htext] at hparts hjoin
    exact ⟨parts, hparts, hjoin⟩

namespace Grammar

/-- A state of a parse: that of a phrase in progress, or the last one. -/
def Passes (text : String) (limit : Nat) (state : ParseState) : Prop :=
  state = readFile text limit ∨ ∃ frames, InProgress (ruleBudget limit) text limit frames ∧
    ∃ frame ∈ frames, frame.state = state

/-- Where a file lacks a mark, one of its states has too many events. -/
theorem passes_of_lacks {text : String} {limit : Nat}
    (h : (fileFrame (ruleBudget limit) text limit).Lacks grammar) :
    ∃ state, Passes text limit state ∧ UInt32.size ≤ state.events.size := by
  obtain ⟨last, hreaches, hmark⟩ := h
  obtain ⟨frames, hchain, hlast⟩ := List.exists_isChain_cons_of_relationReflTransGen hreaches
  have hmem : last ∈ fileFrame (ruleBudget limit) text limit :: frames :=
    hlast ▸ List.getLast_mem _
  exact ⟨last.state, Or.inr ⟨_, ⟨rfl, hchain⟩, last, hmem, rfl⟩,
    ParseState.hasMark_eq_false_iff.mp hmark⟩

/-- A file is read with marks of 32 bits as it is read without bounds. -/
theorem yields_readFile? (text : String) (limit : Nat) :
    Yields (readFile? text limit) (readFile text limit)
      (∃ state, Passes text limit state ∧ UInt32.size ≤ state.events.size) := by
  have hitems := (CallFrame.answers grammar (fileFrame (ruleBudget limit) text limit)).mono
    passes_of_lacks
  rw [← readWithin_eq (Nat.le_refl (ruleBudget limit))]
  exact Yields.bind (.some _ _) (hitems.bind (.some _ _))

end Grammar

/-- A growth has an event for every step that builds its shapes. -/
theorem Growth.length_stepsAll_le {growth : Growth} (h : growth.IsSound) :
    (Shape.stepsAll growth.shapes).length ≤ growth.size := by
  induction growth with
  | nil => simp [shapes]
  | token before held field ih =>
    have hbefore := ih h
    simp only [shapes, size, Shape.stepsAll_append, Shape.stepsAll_singleton, Shape.steps,
      List.length_append, List.length_singleton]
    omega
  | blank before ih => exact Nat.le_succ_of_le (ih h)
  | node before kind field body ih ih' =>
    have hbefore := ih h.1
    have hbody := ih' h.2.2
    simp only [shapes, size, Shape.stepsAll_append, Shape.stepsAll_singleton, Shape.steps,
      List.length_append, List.length_cons, List.length_nil]
    omega
  | wrap before kind field body ih ih' =>
    have hbefore := ih h.1
    have hbody := ih' h.2.2.2
    -- the node in front moves into the new one
    have hsplit : before.shapes.dropLast ++ before.shapes.getLast?.toList = before.shapes := by
      rw [List.getLast?_eq_some_getLast (shapes_ne_nil h.2.1)]
      exact List.dropLast_concat_getLast _
    rw [← hsplit, Shape.stepsAll_append, List.length_append] at hbefore
    simp only [shapes, size, Shape.stepsAll_append, Shape.stepsAll_singleton, Shape.steps,
      List.length_append, List.length_cons, List.length_nil]
    omega

theorem ParseState.finish_readFile (text : String) (limit : Nat) :
    (readFile text limit).finish text = (Tree.build text (fileShape text limit).steps).map
      fun tree => ⟨tree, (readFile text limit).reports⟩ := by
  obtain ⟨growth, hsound, hshapes, hevents, -, hmisused⟩ := readFile_eq text limit
  have hlinked : (readFile text limit).events.isLinked = true := by
    rw [hevents]
    exact Growth.isLinked_events hsound
  have hsteps : (readFile text limit).events.steps = (fileShape text limit).steps := by
    rw [hevents, Growth.steps_events hsound, hshapes, Shape.stepsAll_singleton]
  simp only [finish, hmisused, hlinked, hsteps]
  cases Tree.build text (fileShape text limit).steps <;> rfl

/-- The parse of what was read keeps the text, unless it took `2 ^ 32` events or more. -/
theorem ParseState.finish_keeps {text : String} (h : text.utf8ByteSize < UInt32.size)
    (limit : Nat) :
    (∃ parse, (readFile text limit).finish text = .ok parse ∧ parse.Keeps text) ∨
      (readFile text limit).finish text = .error .tooMany ∧
        UInt32.size ≤ (readFile text limit).events.size := by
  obtain ⟨stop, htiled, hstop⟩ := tiled_fileShape text limit
  obtain ⟨tree, hassemble, htext, hdraws⟩ := Tree.assemble_node htiled hstop h
  have hassemble' : Tree.assemble text (fileShape text limit).steps = .ok tree := hassemble
  rw [finish_readFile]
  by_cases hcompact : tree.isCompact = true
  · rw [Tree.build_eq_ok_iff.mpr ⟨hassemble', hcompact⟩]
    exact Or.inl ⟨_, rfl, Parse.keeps_of_draws htext hdraws⟩
  · rw [Tree.build_of_not_isCompact hassemble' hcompact]
    refine Or.inr ⟨rfl, Nat.le_of_not_lt fun hevents => hcompact ?_⟩
    obtain ⟨growth, hsound, hshapes, hgrowth, -, -⟩ := readFile_eq text limit
    have hsteps := Growth.length_stepsAll_le hsound
    rw [hshapes, Shape.stepsAll_singleton] at hsteps
    rw [hgrowth, List.size_toArray, Growth.length_events] at hevents
    exact Tree.isCompact_node htiled hassemble (Nat.lt_of_le_of_lt hsteps hevents)

/-- The parse of a text within the bounds of 32 bits is its parse. -/
theorem parseWith_of_parseBounded {text : String} {limit : Nat} {parse : Parse}
    (h : parseBounded text limit = .ok parse) : parseWith text limit = .ok parse := by
  rw [parseBounded] at h
  rcases yields_readFile? text limit with hread | ⟨hnone, -⟩
  · rw [hread] at h
    dsimp only at h
    rw [ParseState.finish_readFile] at h
    cases hbuild : Tree.build text (fileShape text limit).steps with
    | error fault =>
      rw [hbuild] at h
      cases h
    | ok tree =>
      rw [hbuild] at h
      rw [parseWith_assemble, Tree.assemble_of_build hbuild]
      exact h
  · rw [hnone] at h
    cases h

/-- Skipping takes a closing brace at the front by itself: the start of an error node, the brace and
the end of the node. -/
theorem ParseState.skipFailed_of_rightBrace {state start : ParseState}
    (h : start.kind = .rightBrace) (hsize : start.events.size ≤ state.events.size) :
    (state.skipFailed start.checkpoint).lexer = start.lexer.advance ∧
      (state.skipFailed start.checkpoint).events.size = start.events.size + 3 := by
  have hkind : start.lexer.current.kind = .rightBrace := h
  have hmin : min start.events.size state.events.size = start.events.size := Nat.min_eq_left hsize
  dsimp only [skipFailed]
  constructor
  · split <;> simp [endNode, require, skipElement, rounds, kind, current, openNode, rewind,
      checkpoint, report, hkind, ParseState.discard]
  · split <;> simp [endNode, require, skipElement, rounds, kind, current, openNode, rewind,
      checkpoint, report, hkind, ParseState.discard, Events.complete, Events.openNode, mark, hmin]

namespace Grammar
open Phrase ParseState

/-- At a closing brace, an item is a complaint about it. -/
theorem run_item_of_rightBrace {state : ParseState} (h : state.kind = .rightBrace)
    (runRule : Rule → ParseState → Outcome × ParseState) :
    item.run runRule state = (errorToken (.refuse "unmatched `\x7d`")).run runRule state := by
  simp [item, Grammar.cases, Phrase.run, Test.holds, holds_sees, constStart, h]

theorem run?_item_of_rightBrace {state : ParseState} (h : state.kind = .rightBrace)
    (runRule : Rule → ParseState → Option (Outcome × ParseState)) :
    item.run? runRule state = (errorToken (.refuse "unmatched `\x7d`")).run? runRule state := by
  simp [item, Grammar.cases, Phrase.run?, Test.holds, holds_sees, constStart, h]

/-- An item cannot start with a closing brace, so the brace is skipped. -/
theorem run_stray {state : ParseState} (h : state.kind = .rightBrace)
    (runRule : Rule → ParseState → Outcome × ParseState) : ∃ after,
    (recover item).run runRule state = (.done, after) ∧ after.lexer = state.lexer.advance ∧
      after.events.size = state.events.size + 3 := by
  have hkind : state.lexer.current.kind = .rightBrace := h
  have hfailed : (item.run runRule state).2.failures = state.failures + 1 ∧
      state.events.size ≤ (item.run runRule state).2.events.size := by
    rw [run_item_of_rightBrace h]
    simp [Phrase.run, errorToken, nodeOf, steps, token, endNode, openNode, ParseState.take,
      ParseState.push, ParseState.fail, failWith, report, kind, current, hkind, require,
      Events.complete, Events.openNode]
    omega
  have hskip := ParseState.skipFailed_of_rightBrace h hfailed.2
  refine ⟨_, ?_, hskip⟩
  simp [Phrase.run, hfailed.1, checkpoint]

theorem run?_stray {state : ParseState} (h : state.kind = .rightBrace)
    (hmark : state.hasMark = false) (runRule : Rule → ParseState → Option (Outcome × ParseState)) :
    (recover item).run? runRule state = none := by
  simp [Phrase.run?, run?_item_of_rightBrace h, errorToken, nodeOf, openNode?, hmark]

end Grammar

/-- A text of closing braces only. -/
def braces (count : Nat) : String :=
  String.ofList (List.replicate count '}')

theorem layout_braces (offset count : Nat) : layout ⟨offset, List.replicate count '}'⟩ =
    ⟨[], none, ⟨offset, List.replicate count '}'⟩⟩ := by
  have hnone : stretch? (List.replicate count '}') = none := by
    cases count with
    | zero => rfl
    | succ count =>
      have hblank : Text.isBlank '}' = false := by decide
      simp [List.replicate_succ, stretch?, hblank]
  rw [layout, hnone]

/-- In front of closing braces a lexer sees the first one, and goes on in front of the others. -/
theorem Lexer.place_braces (offset count : Nat) (preceding : Kind) :
    ∃ current, Lexer.place ⟨offset, List.replicate (count + 1) '}'⟩ .plain preceding =
      ⟨⟨offset, List.replicate (count + 1) '}'⟩, .plain, preceding, current,
        ⟨offset + 1, List.replicate count '}'⟩⟩ ∧ current.kind = .rightBrace := by
  have hscan : scan .plain preceding (List.replicate (count + 1) '}') = .sound .rightBrace 1 := by
    rfl
  have hskip : Cursor.skip ⟨offset, List.replicate (count + 1) '}'⟩ 1 =
      ⟨offset + 1, List.replicate count '}'⟩ := rfl
  refine ⟨(lex .plain preceding ⟨offset, List.replicate (count + 1) '}'⟩).1, ?_, ?_⟩
  · simp only [Lexer.place, lex, layout_braces, hscan, Scan.sound, hskip]
  · simp only [lex, layout_braces, hscan, Scan.sound]

namespace Grammar

open Phrase ParseState

/-- Every brace takes three events, and so one of them has no mark. -/
theorem loopWhile?_braces {budget : Nat} {state : ParseState} {offset count limit : Nat}
    {preceding : Kind}
    (hlexer : state.lexer = Lexer.place ⟨offset, List.replicate (count + 1) '}'⟩ .plain preceding)
    (hlimit : count < limit) (hevents : UInt32.size ≤ state.events.size + 3 * count) :
    loopWhile? (fun state => Test.holds state (.not (.sees .eof)))
      ((recover item).run? (runRule? grammar budget)) state limit = none := by
  induction count generalizing state offset limit preceding with
  | zero =>
    obtain ⟨current, hplace, hcurrent⟩ := Lexer.place_braces offset 0 preceding
    have hkind : state.kind = .rightBrace := by
      rw [ParseState.kind, ParseState.current, hlexer, hplace, hcurrent]
    have hmark : state.hasMark = false := hasMark_eq_false_iff.mpr (by simpa using hevents)
    cases limit with
    | zero => cases hlimit
    | succ limit =>
      rw [loopWhile?, if_pos (by rw [holds_not_eof, hkind]; rfl), run?_stray hkind hmark]
      rfl
  | succ count ih =>
    obtain ⟨current, hplace, hcurrent⟩ := Lexer.place_braces offset (count + 1) preceding
    have hkind : state.kind = .rightBrace := by
      rw [ParseState.kind, ParseState.current, hlexer, hplace, hcurrent]
    cases limit with
    | zero => cases hlimit
    | succ limit =>
      rw [loopWhile?, if_pos (by rw [holds_not_eof, hkind]; rfl)]
      obtain ⟨after, hrun, hafter, hsize⟩ := run_stray hkind (runRule grammar budget)
      rcases CallFrame.answers grammar ⟨budget, .recover item, state⟩ with hsome | ⟨hnone, -⟩
      · dsimp only at hsome
        rw [hsome, hrun]
        have hadvance : after.lexer =
            Lexer.place ⟨offset + 1, List.replicate (count + 1) '}'⟩ .plain current.kind := by
          rw [hafter, hlexer, hplace]
          rfl
        exact ih hadvance (Nat.lt_of_succ_lt_succ hlimit) (by omega)
      · dsimp only at hnone
        rw [hnone]
        rfl

end Grammar

theorem utf8ByteSize_braces (count : Nat) : (braces count).utf8ByteSize = count := by
  rw [utf8ByteSize_eq_byteCount, braces, String.toList_ofList]
  induction count with
  | zero => rfl
  | succ count ih =>
    rw [List.replicate_succ, byteCount_cons, ih, show Char.utf8Size '}' = 1 from rfl]
    omega

open Grammar ParseState in
/-- By induction on the braces, each of them adds three events. Where these have passed what 32 bits
can count, one more brace has no mark. -/
theorem readFile?_braces {count : Nat} (h : UInt32.size ≤ 1 + 3 * count) (limit : Nat) :
    readFile? (braces (count + 1)) limit = none := by
  have hopen : (ofText (braces (count + 1)) limit).openNode? =
      some (ofText (braces (count + 1)) limit).openNode := rfl
  have hlexer : (ofText (braces (count + 1)) limit).openNode.lexer =
      Lexer.place ⟨0, List.replicate (count + 1) '}'⟩ .plain .eof := by
    show Lexer.place ⟨0, (braces (count + 1)).toList⟩ .plain .eof = _
    rw [braces, String.toList_ofList]
  have hrounds : count < (ofText (braces (count + 1)) limit).openNode.rounds := by
    show count < (braces (count + 1)).utf8ByteSize - 0 + 1
    rw [utf8ByteSize_braces]
    omega
  have hitems := @loopWhile?_braces (ruleBudget limit) _ _ _ _ _ hlexer hrounds h
  rw [readFile?, hopen]
  show ((loopWhile? _ _ (ofText (braces (count + 1)) limit).openNode _).bind _).bind _ = none
  rw [hitems]
  rfl

theorem braces_refused_of_le {count : Nat} (h : UInt32.size ≤ 1 + 3 * count) (limit : Nat) :
    parseBounded (braces (count + 1)) limit = .error .tooMany := by
  rw [parseBounded, readFile?_braces h]

end ScriptTree

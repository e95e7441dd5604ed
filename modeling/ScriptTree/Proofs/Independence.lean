import Mathlib.Data.List.Perm.Subperm
import ScriptTree.Proofs.Grammar.Items
import ScriptTree.Proofs.Reported
import ScriptTree.Proofs.Tree.Shift

/-!
Items do not depend on what stands before them. Behind an item that ends with a semicolon or a
closing brace, a file goes on as if the text began there: whatever was wrong before, no mode of
reading, no failure and no depth is left behind.
-/

namespace ScriptTree

/-- The token before the lookahead is the one that was taken last. -/
theorem Lexer.Reads.preceding_eq {a b : Lexer} {tokens : List Token} (h : Reads a tokens b)
    {token : Token} (hlast : tokens.getLast? = some token) : b.preceding = token.kind := by
  induction h with
  | refl => simp at hlast
  | relex mode _ ih =>
    rw [← ih hlast]
    unfold Lexer.relex
    split <;> rfl
  | take before _ =>
    rw [List.getLast?_concat] at hlast
    rw [← Option.some.inj hlast]
    rfl

/-- Tokens that differ in what is wrong with them only have the same kinds. -/
theorem kind_getLast_of_cleared {xs ys : List Token}
    (h : xs.map Token.cleared = ys.map Token.cleared) {token : Token}
    (hlast : xs.getLast? = some token) :
    ∃ held, ys.getLast? = some held ∧ held.kind = token.kind := by
  have hcleared := congrArg List.getLast? h
  rw [List.getLast?_map, List.getLast?_map, hlast] at hcleared
  cases hys : ys.getLast? with
  | none =>
    rw [hys] at hcleared
    cases hcleared
  | some held =>
    rw [hys] at hcleared
    exact ⟨held, rfl, (congrArg Token.kind (Option.some.inj hcleared)).symm⟩

/-- Behind a token that ends an element no operand ends. -/
theorem Kind.endsOperand_of_endsElement {kind : Kind} (h : kind.endsElement = true) :
    kind.endsOperand = Kind.endsOperand .eof := by
  simp only [endsElement, Bool.or_eq_true, beq_iff_eq] at h
  rcases h with rfl | rfl <;> rfl

/-- An ordinary lexer behind a token that ends an element reads what the rest of the text reads by
itself. -/
theorem Lexer.Reached.shifted {text : String} {lexer : Lexer} (h : lexer.Reached text)
    (hmode : lexer.mode = .plain) (hends : lexer.preceding.endsElement = true) :
    ∃ before rest : String, text = before ++ rest ∧ before.utf8ByteSize = lexer.start.offset ∧
      (Lexer.ofText rest).Shifted before.utf8ByteSize lexer := by
  obtain ⟨chars, hrest, hoffset⟩ := h.within
  have hsize : (String.ofList chars).utf8ByteSize = lexer.start.offset := by
    rw [utf8ByteSize_eq_byteCount, String.toList_ofList, hoffset]
    simp [Cursor.ofText]
  refine ⟨String.ofList chars, String.ofList lexer.start.rest, ?_, hsize, ?_⟩
  · rw [← String.ofList_append]
    have htext : text.toList = chars ++ lexer.start.rest := hrest
    rw [← htext, String.ofList_toList]
  · have hplaced : lexer = place lexer.start .plain lexer.preceding := hmode ▸ h.placed
    have hstart : lexer.start = (Cursor.ofText (String.ofList lexer.start.rest)).shift
        (String.ofList chars).utf8ByteSize := by
      rw [hsize, Cursor.ofText, Cursor.shift, String.toList_ofList, Nat.zero_add]
    have hshifted := shifted_place (String.ofList chars).utf8ByteSize
      (Cursor.ofText (String.ofList lexer.start.rest)) .plain
      (Kind.endsOperand_of_endsElement hends)
    rw [← hstart, ← hplaced] at hshifted
    exact hshifted

namespace Grammar

open Phrase Reading ParseState Footing

/-- Behind an item that ends with a semicolon or a closing brace, the items of a file are those of
the rest of the text. -/
theorem fileReading_cut {text : String} {limit : Nat} {front back : List Shape} {shape : Shape}
    (h : (fileReading text limit).shapes = front ++ shape :: back) {token : Token}
    (hlast : shape.tokens.getLast? = some token) (hends : token.kind.endsElement = true) :
    ∃ (before rest : String) (first : Reading), text = before ++ rest ∧
      before.utf8ByteSize = widthOf (Shape.tokensAll (front ++ [shape])) ∧
      first.shapes = front ++ [shape] ∧ ∃ second,
      (fileReading rest limit).Shifted before.utf8ByteSize second ∧
      fileReading text limit = first.andThen second := by
  rw [fileReading_eq] at h
  obtain ⟨begun, last, rounds, hbegun, hshape, hacc, hacc', hfirm, heq⟩ :=
    drawItems_cut (fun _ => rfl) h
  rw [← fileReading_eq] at heq
  -- the token before the lexer at the cut is the last one of the item
  have hends' : last.lexer.preceding.endsElement = true := by
    obtain ⟨tokens, hreads, -, hcleared, -⟩ := hacc'.reads
    rw [hshape, Shape.tokensAll_singleton] at hcleared
    obtain ⟨held, hheld, hkind⟩ := kind_getLast_of_cleared hcleared hlast
    rw [hreads.preceding_eq hheld, hkind, hends]
  obtain ⟨tokens, hreads, -, hcleared, -⟩ := (hacc.andThen hacc').reads
  obtain ⟨before, rest, htext, hsize, hshifted⟩ :=
    Lexer.Reached.shifted ⟨tokens, hreads⟩ (hfirm hends') hends'
  refine ⟨before, rest, begun.andThen last, htext, ?_, ?_, _, ?_, heq⟩
  · have hshapes : (begun.andThen last).shapes = front ++ [shape] := by
      rw [Reading.andThen, hbegun, hshape]
    rw [hshapes] at hcleared
    have htiled := (hreads.tiled (Lexer.place_placed _ _ _)).of_cleared hcleared
    rw [hsize]
    exact htiled.offset_eq.trans (Nat.zero_add _)
  · rw [Reading.andThen, hbegun, hshape]
  · have hstate : (ofText rest limit).Shifted before.utf8ByteSize
        ((ofText text limit).moveTo last.lexer) := by
      refine ⟨hshifted, rfl, rfl, ?_⟩
      show text.utf8ByteSize = rest.utf8ByteSize + before.utf8ByteSize
      rw [htext, String.utf8ByteSize_append, Nat.add_comm]
    have hloop := shifts_drawItems before.utf8ByteSize limit rounds _ _ hstate
    -- both loops stop before they run out of rounds, so their numbers of rounds do not matter
    have hkept := (covers_fileReading text limit).keeps
    rw [heq] at hkept
    have hkept' := (Bool.or_eq_false_iff.mp hkept).2
    have hsame : drawItems limit (ofText rest limit) rounds = fileReading rest limit :=
      drawLoop_eq_of_kept (hloop.misused.symm.trans hkept') (covers_fileReading rest limit).keeps
    rw [← hsame]
    exact hloop

/-- What is wrong with tokens further on lies further on. -/
theorem errors_shift (distance : Nat) (tokens : List Token) :
    ((tokens.map (Token.shift distance)).filterMap (·.error)).map LexError.report =
      ((tokens.filterMap (·.error)).map LexError.report).map (Diagnostic.shift distance) := by
  induction tokens with
  | nil => rfl
  | cons token rest ih =>
    rw [List.map_cons, List.filterMap_cons, List.filterMap_cons]
    cases herror : token.error with
    | none => simpa [Token.shift, herror] using ih
    | some error =>
      simpa [Token.shift, herror, LexError.report, LexError.shift, Diagnostic.shift] using ih

/-- The file behind an item that ends with a semicolon or a closing brace: its shapes and reports
are those of the rest of the text, further on. -/
theorem fileShape_cut {text : String} {limit : Nat} {front back : List Shape} {shape : Shape}
    (h : (fileReading text limit).shapes = front ++ shape :: back) {token : Token}
    (hlast : shape.tokens.getLast? = some token) (hends : token.kind.endsElement = true) :
    ∃ before rest : String, text = before ++ rest ∧
      before.utf8ByteSize = widthOf (Shape.tokensAll (front ++ [shape])) ∧
      back ++ [.leaf (fileReading text limit).lexer.current none] =
        Shape.shiftAll before.utf8ByteSize
          ((fileReading rest limit).shapes ++
            [.leaf (fileReading rest limit).lexer.current none]) ∧
      ((readFile rest limit).reports.map (Diagnostic.shift before.utf8ByteSize)).Subperm
        (readFile text limit).reports := by
  obtain ⟨before, rest, first, htext, hsize, hfirst, second, hsecond, heq⟩ :=
    fileReading_cut h hlast hends
  have hback : back = (fileReading rest limit).shapes.map (Shape.shift before.utf8ByteSize) := by
    rw [heq, Reading.andThen, hfirst, hsecond.shapes, List.append_assoc, List.singleton_append] at h
    have hcancel := List.append_cancel_left h
    exact ((List.cons.inj hcancel).2).symm
  have hend : (fileReading text limit).lexer.current =
      (fileReading rest limit).lexer.current.shift before.utf8ByteSize := by
    rw [heq]
    exact hsecond.lexer.current
  have hchildren : back ++ [.leaf (fileReading text limit).lexer.current none] =
      Shape.shiftAll before.utf8ByteSize ((fileReading rest limit).shapes ++
        [.leaf (fileReading rest limit).lexer.current none]) := by
    rw [hback, hend, Shape.shiftAll_eq, List.map_append, List.map_singleton, Shape.shift]
  refine ⟨before, rest, htext, hsize, hchildren, ?_⟩
  have hreports : (fileReading text limit).reports = first.reports ++
      (fileReading rest limit).reports.map (Diagnostic.shift before.utf8ByteSize) := by
    rw [heq, Reading.andThen, hsecond.reports]
  have htokens : (fileShape text limit).tokens = Shape.tokensAll (front ++ [shape]) ++
      (fileShape rest limit).tokens.map (Token.shift before.utf8ByteSize) := by
    simp only [fileShape, Shape.tokens]
    rw [h, ← Shape.tokensAll_shift, ← hchildren, ← Shape.tokensAll_append]
    simp
  rw [reports_readFile, reports_readFile, hreports, htokens, List.filterMap_append, List.map_append,
    errors_shift]
  -- sorting does not change how often a report occurs, and in front of each part there are more
  refine ((List.mergeSort_perm _ _).map _).subperm.trans ?_
  refine List.Subperm.trans ?_ (List.mergeSort_perm _ _).symm.subperm
  rw [List.map_append]
  exact ((List.sublist_append_right _ _).append (List.sublist_append_right _ _)).subperm

end Grammar

open Grammar

/-- The tree of a parse lays down the file that was read. -/
theorem lies_of_parseWith {text : String} {limit : Nat} {parse : Parse}
    (h : parseWith text limit = .ok parse) : parse.tree.text = text ∧
      parse.diagnostics = (readFile text limit).reports ∧
      Shape.LiesAll parse.tree 0 ((fileReading text limit).shapes ++
        [.leaf (fileReading text limit).lexer.current none]) 0 0
          (parse.tree.elements Tree.root) := by
  obtain ⟨tree, hparse, htext, -⟩ := parseWith_eq (size_lt_of_parseWith h) limit
  obtain rfl := Except.ok.inj (hparse.symm.trans h)
  obtain ⟨id, node, elements, hroot, -, hlists, -, -, -, -, hall⟩ :=
    Tree.lies_of_assemble (assemble_of_parseWith h)
  obtain rfl := Element.node.inj hroot
  refine ⟨htext, rfl, ?_⟩
  rw [hlists.elements]
  exact hall

/-- Items do not depend on what stands before them. Behind a node of the root that ends with a
semicolon or a closing brace, the root goes on with the children that the rest of the text has by
itself, up to the end of the text, and with everything below them; only their places are further on.
All that is reported of the rest by itself is reported of the text, as often. -/
theorem items_independent {text : String} {limit : Nat} {parse : Parse}
    (h : parseWith text limit = .ok parse) {before after : List Element} {item : NodeId}
    (hitem : parse.tree.elements Tree.root = before ++ .node item :: after) {last : TokenId}
    (hlast : parse.tree.lastToken? item = some last)
    (hends : (parse.tree.leaf last).kind = .semicolon ∨ (parse.tree.leaf last).kind = .rightBrace) :
    ∃ (front back : String) (parse' : Parse), text = front ++ back ∧
      front.utf8ByteSize = (parse.tree.nodeSpan item).stop ∧ parseWith back limit = .ok parse' ∧
      List.Forall₂ (parse'.tree.Shifted front.utf8ByteSize parse.tree)
        (parse'.tree.elements Tree.root) after ∧
      (parse'.diagnostics.map (Diagnostic.shift front.utf8ByteSize)).Subperm parse.diagnostics := by
  obtain ⟨htext, hreports, hall⟩ := lies_of_parseWith h
  rw [hitem] at hall
  obtain ⟨shapes, shape, behind, hshapes, hlies, hbehind⟩ := hall.cut
  obtain ⟨token, htoken, hkind⟩ := hlies.getLast hlast
  -- the end of the text is a token, so the node is one of the items
  have hitems : ∃ rest, (fileReading text limit).shapes = shapes ++ shape :: rest ∧
      behind = rest ++ [.leaf (fileReading text limit).lexer.current none] := by
    rcases List.eq_nil_or_concat behind with rfl | ⟨rest, final, rfl⟩
    · have hfinal := (List.append_inj' hshapes rfl).2
      rw [← (List.cons.inj hfinal).1] at hlies
      cases hlies.1
    · rw [List.concat_eq_append, ← List.cons_append, ← List.append_assoc] at hshapes
      obtain ⟨hfront, hfinal⟩ := List.append_inj' hshapes rfl
      rw [List.concat_eq_append, ← (List.cons.inj hfinal).1]
      exact ⟨rest, hfront, rfl⟩
  obtain ⟨rest, hrest, hbehindEq⟩ := hitems
  have hendsElement : token.kind.endsElement = true := by
    rw [hkind]
    rcases hends with hsemicolon | hbrace
    · rw [hsemicolon]
      rfl
    · rw [hbrace]
      rfl
  obtain ⟨front, back, hcut, hwidth, hchildren, hsubperm⟩ :=
    fileShape_cut hrest htoken hendsElement
  have hsize : back.utf8ByteSize < UInt32.size := by
    have hle := size_lt_of_parseWith h
    rw [hcut, String.utf8ByteSize_append] at hle
    omega
  obtain ⟨tree', hparse', -⟩ := parseWith_eq hsize limit
  obtain ⟨htext', hreports', hall'⟩ := lies_of_parseWith hparse'
  refine ⟨front, back, _, hcut, ?_, hparse', ?_, ?_⟩
  · rw [hlies.nodeSpan, Span.sized, hwidth, Shape.tokensAll_append, Shape.tokensAll_singleton,
      widthOf_append, Nat.zero_add]
  · rw [hbehindEq, hchildren, ← hwidth] at hbehind
    refine hall'.shifted ?_ rfl hbehind
    rw [htext, htext', hcut]
  · rw [hreports, hreports']
    exact hsubperm

/-- Two constants, both malformed: the second one is read and reported as it is by itself. -/
theorem constants_independent : ∃ parse, parseWith "const = ; const b 2;" 3 = .ok parse ∧
    parse.tree.elements Tree.root = [] ++ .node 1 :: [.node 2, .token 7] ∧
    parse.tree.lastToken? 1 = some 2 ∧ (parse.tree.leaf 2).kind = .semicolon ∧
    ∃ (front back : String) (parse' : Parse), "const = ; const b 2;" = front ++ back ∧
      front.utf8ByteSize = (parse.tree.nodeSpan 1).stop ∧ parseWith back 3 = .ok parse' ∧
      List.Forall₂ (parse'.tree.Shifted front.utf8ByteSize parse.tree)
        (parse'.tree.elements Tree.root) [.node 2, .token 7] ∧
      (parse'.diagnostics.map (Diagnostic.shift front.utf8ByteSize)).Subperm parse.diagnostics := by
  have hfacts : (parseWith "const = ; const b 2;" 3).toOption.map
      (fun parse => (parse.tree.elements Tree.root, parse.tree.lastToken? 1,
        (parse.tree.leaf 2).kind)) = some ([.node 1, .node 2, .token 7], some 2, .semicolon) := by
    decide +kernel
  obtain ⟨tree, hparse, -⟩ :=
    parseWith_eq (show "const = ; const b 2;".utf8ByteSize < UInt32.size by decide) 3
  rw [hparse] at hfacts
  obtain ⟨helements, hrest⟩ := Prod.mk.inj (Option.some.inj hfacts)
  obtain ⟨hlast, hkind⟩ := Prod.mk.inj hrest
  have hitem : tree.elements Tree.root = [] ++ .node 1 :: [.node 2, .token 7] := helements
  exact ⟨_, hparse, hitem, hlast, hkind, items_independent hparse hitem hlast (.inl hkind)⟩

end ScriptTree

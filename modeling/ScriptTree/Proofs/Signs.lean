import ScriptTree.Proofs.Grammar.Endings
import ScriptTree.Proofs.Independence
import ScriptTree.Proofs.Lexer.Sign
import ScriptTree.Proofs.Lexer.Standing
import ScriptTree.Proofs.Tree.Family

/-!
Signs behind operands. A sign in front of a digit belongs to a number literal, unless the token
before it can end an operand. In the tree of a text without reports every expression ends in a token
that can end an operand, or in one of the two words `default` and `new`, of which this is not known:
behind them a sign is taken for the sign of a number.
-/

namespace ScriptTree

open Text Grammar

/-- A sign stands in the text at an offset, and a digit behind it. -/
def SignAt (text : String) (offset : Nat) (sign : Char) : Prop :=
  ∃ before digit after, text.toList = before ++ sign :: digit :: after ∧
    byteCount before = offset ∧ isDigit digit = true

namespace Lexer

/-- What the lookahead is scanned from are the characters of the text from its start on. -/
theorem Reached.toScan_eq {text : String} {lexer : Lexer} (h : lexer.Reached text)
    {before after : List Char} (htext : text.toList = before ++ after)
    (hoffset : byteCount before = lexer.current.span.start) : lexer.toScan = after := by
  obtain ⟨front, hfront, hstart⟩ := h.standsBefore
  rw [h.placed.text_eq, List.take_append_drop] at hfront
  obtain ⟨middle, hmiddle, hafter⟩ :=
    exists_between (htext.symm.trans hfront) (hoffset.trans hstart.symm).le
  have hnil : middle = [] := by
    by_contra hne
    have hpos := byteCount_pos hne
    have hcount := congrArg byteCount hmiddle
    rw [byteCount_append, hstart, hoffset] at hcount
    omega
  rw [hafter, hnil, List.nil_append]

/-- On a run, a sign in front of a digit is an operator if the token before it can end an
operand. -/
theorem Reads.kind_of_sign {text : String} {front back : List Token} {operand next : Token}
    {last : Lexer} (h : Reads (ofText text) (front ++ operand :: next :: back) last)
    (hends : operand.kind.endsOperand = true) {sign : Char} {kind : Kind}
    (hsign : signOperator? sign = some kind) (hat : SignAt text next.span.start sign) :
    next.kind = kind := by
  have hsplit : front ++ operand :: next :: back = (front ++ [operand]) ++ next :: back := by simp
  rw [hsplit] at h
  obtain ⟨lexer, hbefore, rfl, -⟩ := h.cut
  have hreached : lexer.Reached text := ⟨_, hbefore⟩
  have hpreceding : lexer.preceding = operand.kind :=
    hbefore.preceding_eq List.getLast?_concat
  obtain ⟨before, digit, after, htext, hoffset, hdigit⟩ := hat
  rw [hreached.placed.kind_eq, found, hreached.toScan_eq htext hoffset, hpreceding,
    Scan.scan_sign hsign hends hdigit]
  rfl

end Lexer

namespace Grammar

/-- The tokens of a file are those of a run from its front, but for what is wrong with them. -/
theorem exists_reads_fileShape (text : String) (limit : Nat) :
    ∃ tokens last, Lexer.Reads (.ofText text) tokens last ∧
      (fileShape text limit).tokens.map Token.cleared = tokens.map Token.cleared := by
  obtain ⟨tokens, hreads, -, hcleared, -⟩ := (accounted_fileReading text limit).reads
  refine ⟨tokens ++ [(fileReading text limit).lexer.current], _, .take hreads, ?_⟩
  rw [List.map_append, ← hcleared]
  simp [fileShape, Shape.tokens]

/-- The last token of a file is the end of its text. -/
theorem kind_getLast_fileShape {text : String} {limit : Nat} {token : Token}
    (h : (fileShape text limit).tokens.getLast? = some token) : token.kind = .eof := by
  have hlast : (fileShape text limit).tokens.getLast? =
      some (fileReading text limit).lexer.current := by
    simp [fileShape, Shape.tokens]
  obtain rfl := Option.some.inj (hlast.symm.trans h)
  exact fileReading_eof text limit

end Grammar

namespace Tree

theorem place_leaf {tree : Tree} {tokens : List Token}
    (h : tree.leaves.toList.map Leaf.place = tokens.map Token.place) {id : TokenId} {token : Token}
    (htoken : tokens[id]? = some token) : (tree.leaf id).place = token.place := by
  have hplace : (tree.leaves[id]?).map Leaf.place = some token.place := by
    rw [← Array.getElem?_toList, ← List.getElem?_map, h, List.getElem?_map, htoken]
    rfl
  obtain ⟨leaf, hleaf, heq⟩ := Option.map_eq_some_iff.mp hplace
  rw [leaf_eq hleaf, heq]

variable {text : String} {limit : Nat} {tree : Tree}

/-- In the tree of a file, a sign in front of a digit is an operator if the token before it can end
an operand. -/
theorem Draws.kind_of_sign (h : tree.Draws (fileShape text limit)) {id : TokenId}
    (hid : id + 1 < tree.leafCount) (hends : (tree.leaf id).kind.endsOperand = true) {sign : Char}
    {kind : Kind} (hsign : signOperator? sign = some kind)
    (hat : SignAt text (tree.leaf (id + 1)).span.start sign) :
    (tree.leaf (id + 1)).kind = kind := by
  obtain ⟨tokens, last, hreads, hcleared⟩ := exists_reads_fileShape text limit
  have hplaces : tree.leaves.toList.map Leaf.place = tokens.map Token.place := by
    have hcongr := congrArg (List.map Token.place) hcleared
    rw [List.map_map, List.map_map] at hcongr
    exact h.tokens.trans hcongr
  have hlength : tokens.length = tree.leafCount := by
    have hcongr := congrArg List.length hplaces
    simpa [leafCount] using hcongr.symm
  have hnext : id + 1 < tokens.length := hlength ▸ hid
  have hoperand : id < tokens.length := Nat.lt_of_succ_lt hnext
  have hplace := place_leaf hplaces (List.getElem?_eq_getElem hoperand)
  have hplace' := place_leaf hplaces (List.getElem?_eq_getElem hnext)
  have hsplit : tokens = tokens.take id ++ tokens[id] :: tokens[id + 1] :: tokens.drop (id + 2) :=
    calc tokens = tokens.take id ++ tokens.drop id := (List.take_append_drop id tokens).symm
      _ = tokens.take id ++ tokens[id] :: tokens[id + 1] :: tokens.drop (id + 2) := by
        rw [List.drop_eq_getElem_cons hoperand, List.drop_eq_getElem_cons hnext]
  rw [hsplit] at hreads
  obtain ⟨hkind, -⟩ := Prod.mk.inj hplace
  obtain ⟨hkind', hspan⟩ := Prod.mk.inj hplace'
  rw [hkind] at hends
  rw [hspan] at hat
  rw [hkind']
  exact hreads.kind_of_sign hends hsign hat

/-- An expression ends in a token that can end an operand, or in `default` or `new`, and there is a
token behind it. -/
theorem exists_lastToken (hdraws : tree.Draws (fileShape text limit))
    (hhouses : tree.Houses (fileShape text limit)) (hall : (fileShape text limit).All Ends)
    {id : NodeId} (hid : id < tree.nodeCount) (hkind : (tree.kind id).isExpression = true) :
    ∃ last, tree.lastToken? id = some last ∧ last + 1 < tree.leafCount ∧
      operandEnds.contains (tree.leaf last).kind = true := by
  obtain ⟨home, kind, field, children, site, hpart, rfl⟩ := hhouses.exists_node hid
  have hsits := hpart.sits hhouses.sits
  rw [hsits.kind_node] at hkind
  obtain ⟨token, htoken, hends⟩ := exists_last_token (hpart.all hall) (isSome_closing? hkind)
  obtain ⟨inner, hinner⟩ := List.getLast?_eq_some_iff.mp htoken
  obtain ⟨front, back, htokens, hfront, -⟩ := hpart.exists_tokens
  rw [Shape.tokens, hinner] at htokens
  have hrun : (tree.node site.node).tokens = ⟨site.token, inner.length + 1⟩ := by
    have htokenRun := hsits.tokenRun_element
    rw [Shape.tokens, hinner, List.length_append] at htokenRun
    exact htokenRun
  have hget : (fileShape text limit).tokens[site.token + inner.length]? = some token := by
    rw [htokens, ← hfront]
    simp
  have hback : back ≠ [] := by
    rintro rfl
    rw [List.append_nil, ← List.append_assoc] at htokens
    have heof : token.kind = .eof := by
      apply kind_getLast_fileShape
      rw [htokens, List.getLast?_concat]
    rw [heof] at hends
    exact absurd hends (by decide)
  have hlt : site.token + inner.length + 1 < tree.leafCount := by
    have hpos := List.length_pos_iff.mpr hback
    rw [hhouses.leaves, htokens, ← hfront, List.length_append, List.length_append,
      List.length_append, List.length_singleton]
    omega
  refine ⟨site.token + inner.length, ?_, hlt, ?_⟩
  · rw [lastToken?, hrun]
    rfl
  · rwa [(Prod.mk.inj (place_leaf hdraws.tokens hget)).1]

/-- Signs are told from the token before them. -/
structure TellsSigns (tree : Tree) : Prop where
  /-- An expression ends in a token that can end an operand, or in `default` or `new`. It is not the
  last token of the tree. -/
  last : ∀ id < tree.nodeCount, (tree.kind id).isExpression = true →
    ∃ last, tree.lastToken? id = some last ∧ last + 1 < tree.leafCount ∧
      ((tree.leaf last).kind.endsOperand = true ∨ (tree.leaf last).kind = .defaultKw ∨
        (tree.leaf last).kind = .newKw)
  /-- Behind a token that can end an operand, a sign in front of a digit is an operator. -/
  sign : ∀ id, id + 1 < tree.leafCount → (tree.leaf id).kind.endsOperand = true →
    ∀ sign kind, signOperator? sign = some kind →
    SignAt tree.text (tree.leaf (id + 1)).span.start sign → (tree.leaf (id + 1)).kind = kind

end Tree

/-- Where there is nothing to report, a sign in front of a digit is an operator behind every
expression that does not end in `default` or `new`. -/
theorem parse_tellsSigns {text : String} {limit : Nat} {parse : Parse}
    (h : parseWith text limit = .ok parse) (hsilent : parse.diagnostics = []) :
    parse.tree.TellsSigns := by
  have hhouses := Tree.houses_node (assemble_of_parseWith h)
  obtain ⟨tree, hparse, htext, hdraws⟩ := parseWith_eq (size_lt_of_parseWith h) limit
  obtain rfl := Except.ok.inj (hparse.symm.trans h)
  have hlength := length_reports text limit
  have hnone : (readFile text limit).reports.length = 0 := List.length_eq_zero_iff.mpr hsilent
  have hreports : (fileReading text limit).reports = [] :=
    List.eq_nil_of_length_eq_zero (by omega)
  refine ⟨?_, ?_⟩
  · intro id hid hkind
    obtain ⟨last, hlast, hlt, hends⟩ :=
      tree.exists_lastToken hdraws hhouses (ends_fileShape hreports) hid hkind
    refine ⟨last, hlast, hlt, ?_⟩
    simpa [operandEnds, or_assoc] using hends
  · intro id hid hends sign kind hsign hat
    rw [htext] at hat
    exact hdraws.kind_of_sign hid hends hsign hat

/-- A difference: the name ends an operand, so the sign behind it is an operator. -/
theorem parse_difference_tellsSigns : ∃ parse, parseWith "const a=b-1;" 8 = .ok parse ∧
    parse.diagnostics = [] ∧ parse.tree.TellsSigns ∧ parse.tree.lastToken? 4 = some 3 ∧
    SignAt parse.tree.text (parse.tree.leaf 4).span.start '-' ∧
    (parse.tree.leaf 4).kind = .minus := by
  obtain ⟨tree, hparse, htext, -⟩ :=
    parseWith_eq (show "const a=b-1;".utf8ByteSize < UInt32.size by decide) 8
  have hsilent : (readFile "const a=b-1;" 8).reports = [] := by decide +kernel
  have hfacts : (parseWith "const a=b-1;" 8).toOption.map (fun parse =>
      (parse.tree.lastToken? 4, parse.tree.leafCount, (parse.tree.leaf 3).kind,
        (parse.tree.leaf 4).span.start)) = some (some 3, 8, .name, 9) := by
    decide +kernel
  rw [hparse] at hfacts
  obtain ⟨hlast, hrest⟩ := Prod.mk.inj (Option.some.inj hfacts)
  obtain ⟨hcount, hrest⟩ := Prod.mk.inj hrest
  obtain ⟨hname, hstart⟩ := Prod.mk.inj hrest
  have htells : tree.TellsSigns := parse_tellsSigns hparse hsilent
  have hat : SignAt tree.text (tree.leaf 4).span.start '-' := by
    refine ⟨"const a=b".toList, '1', [';'], ?_, ?_, rfl⟩
    · rw [htext]
      decide
    · rw [hstart]
      decide
  have hends : (tree.leaf 3).kind.endsOperand = true := by
    rw [hname]
    rfl
  have hlt : 3 + 1 < tree.leafCount := by
    rw [hcount]
    decide
  exact ⟨_, hparse, hsilent, htells, hlast, hat, htells.sign 3 hlt hends '-' .minus rfl hat⟩

/-- The word `default` is an expression, but is not known to end an operand: a sign behind it is
taken for the sign of a number. -/
theorem default_takes_sign :
    (¬ ∀ (text : String) (limit : Nat) (parse : Parse), parseWith text limit = .ok parse →
      parse.diagnostics = [] → ∀ id < parse.tree.nodeCount,
      (parse.tree.kind id).isExpression = true →
      ∃ last, parse.tree.lastToken? id = some last ∧
        (parse.tree.leaf last).kind.endsOperand = true) ∧
    (tokenize "const a=default-1;").map (·.kind) =
      [.constKw, .name, .eq, .defaultKw, .intNumber, .semicolon, .eof] := by
  refine ⟨?_, by decide +kernel⟩
  intro hall
  obtain ⟨tree, hparse, -⟩ :=
    parseWith_eq (show "const a=default;".utf8ByteSize < UInt32.size by decide) 8
  have hsilent : (readFile "const a=default;" 8).reports = [] := by decide +kernel
  have hfacts : (parseWith "const a=default;" 8).toOption.map (fun parse =>
      (parse.tree.nodeCount, parse.tree.kind 3, parse.tree.lastToken? 3,
        (parse.tree.leaf 3).kind)) = some (4, .keywordExpr, some 3, .defaultKw) := by
    decide +kernel
  rw [hparse] at hfacts
  obtain ⟨hcount, hrest⟩ := Prod.mk.inj (Option.some.inj hfacts)
  obtain ⟨hkind, hrest⟩ := Prod.mk.inj hrest
  obtain ⟨hlast, hdefault⟩ := Prod.mk.inj hrest
  have hid : 3 < tree.nodeCount := by
    rw [hcount]
    decide
  have hexpression : (tree.kind 3).isExpression = true := by
    rw [hkind]
    rfl
  obtain ⟨last, hlast', hends⟩ := hall _ _ _ hparse hsilent 3 hid hexpression
  obtain rfl := Option.some.inj (hlast.symm.trans hlast')
  rw [hdefault] at hends
  cases hends

end ScriptTree

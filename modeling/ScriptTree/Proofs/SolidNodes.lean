import ScriptTree.Proofs.Lexer.Ordinary
import ScriptTree.Proofs.Parser.Making
import ScriptTree.Proofs.Signs
import ScriptTree.Proofs.TokensAtOffsets

/-!
No node of a tree is hollow. Whatever is wrong with a text and however deep its parts may be nested,
each node of its tree has a token and is of a kind for nodes, and each token is of a kind for tokens
and has characters, but for the end of the text.
-/

namespace ScriptTree

namespace Kind

def isToken (kind : Kind) : Bool :=
  kind.id ≤ newKw.id || kind matches .unknown | .eof

def isNode (kind : Kind) : Bool :=
  !kind.isToken && !kind.isTrivia && kind != .tombstone

end Kind

/-- Whatever is read in whatever mode, it is a token. -/
theorem isToken_scan (mode : LexMode) (preceding : Kind) (chars : List Char) :
    (scan mode preceding chars).kind.isToken = true := by
  rcases scan_cases mode preceding chars with hspecial | hordinary
  · obtain ⟨size, -, hfound⟩ | ⟨size, -, hfound⟩ | ⟨-, hfound⟩ := Scan.special?_eq hspecial
    all_goals
      rw [hfound]
      rfl
  · have hall : Scan.ordinaryKinds.all Kind.isToken = true := by decide
    exact List.all_eq_true.mp hall _ hordinary.kind_mem

namespace Grammar

open Phrase

theorem makesOnly_grammar (rule : Rule) : (grammar rule).makesOnly Kind.isNode = true := by
  cases rule with
  | expression least => cases least <;> decide
  | _ => decide

theorem madeOf_fileReading (text : String) (limit : Nat) :
    (fileReading text limit).MadeOf Kind.isNode :=
  MakesOnly.phrase (by decide) (makesOnly_drawRule (by decide) makesOnly_grammar _) (by decide) _

/-- The nodes of a file are of kinds for nodes. -/
theorem all_isNode_fileShape (text : String) (limit : Nat) :
    (fileShape text limit).All fun kind _ => kind.isNode = true :=
  ⟨show Kind.sourceFile.isNode = true by decide,
    Shape.allOf_append.mpr ⟨(madeOf_fileReading text limit).nodes, trivial, trivial⟩⟩

/-- The tokens of a file are of kinds for tokens. -/
theorem isToken_of_mem_fileShape {text : String} {limit : Nat} {token : Token}
    (h : token ∈ (fileShape text limit).tokens) : token.kind.isToken = true := by
  obtain ⟨tokens, last, hreads, hcleared⟩ := exists_reads_fileShape text limit
  have hmem : token.cleared ∈ tokens.map Token.cleared := hcleared ▸ List.mem_map_of_mem h
  obtain ⟨read, hread, heq⟩ := List.mem_map.mp hmem
  obtain ⟨lexer, hreached, rfl⟩ := hreads.exists_reached hread
  have hkind : lexer.current.kind = token.kind := by simpa using congrArg Token.kind heq
  rw [← hkind, hreached.placed.kind_eq]
  exact isToken_scan _ _ _

/-- No token of the items of a file is the end of the text. -/
theorem kind_ne_eof_of_mem_items {text : String} {limit : Nat} {token : Token}
    (h : token ∈ Shape.tokensAll (fileReading text limit).shapes) : token.kind ≠ .eof := by
  obtain ⟨tokens, -, hkinds, hcleared, -⟩ := (accounted_fileReading text limit).reads
  have hmem : token.cleared ∈ tokens.map Token.cleared := hcleared ▸ List.mem_map_of_mem h
  obtain ⟨read, hread, heq⟩ := List.mem_map.mp hmem
  have hkind : read.kind = token.kind := by simpa using congrArg Token.kind heq
  rw [← hkind]
  exact hkinds read hread

end Grammar

/-- Nodes have tokens and kinds for nodes, and tokens have characters and kinds for tokens. The last
token is the end of the text, and no other one is. -/
structure Tree.IsSolid (tree : Tree) : Prop where
  full : ∀ id < tree.nodeCount, ∃ token < tree.leafCount, token ∈ tree.tokensBelow id ∧
    id ∈ tree.ancestors (tree.leaf token).parent
  node : ∀ id < tree.nodeCount, (tree.kind id).isNode = true
  token : ∀ id < tree.leafCount, (tree.leaf id).kind.isToken = true
  wide : ∀ id, id + 1 < tree.leafCount →
    (tree.leaf id).kind ≠ .eof ∧ (tree.leaf id).span.start < (tree.leaf id).span.stop
  ended : ∃ last, last + 1 = tree.leafCount ∧ (tree.leaf last).kind = .eof

open Grammar

/-- The tree of a file is as solid as its shape. -/
theorem Tree.isSolid_file {text : String} {limit : Nat} {tree : Tree}
    (hdraws : tree.Draws (fileShape text limit)) (hhouses : tree.Houses (fileShape text limit)) :
    tree.IsSolid := by
  have hcount := leafCount_eq hhouses
  have hplace {id : TokenId} (hid : id < tree.leafCount) : ∃ token,
      (fileShape text limit).tokens[id]? = some token ∧ (tree.leaf id).place = token.place := by
    have hget := List.getElem?_eq_getElem (hhouses.leaves ▸ hid)
    exact ⟨_, hget, place_leaf hdraws.tokens hget⟩
  refine ⟨fun id hid => ?_, fun id hid => ?_, fun id hid => ?_, fun id hid => ?_,
    tree.leafCount - 1, by omega, kind_ending hhouses⟩
  · obtain ⟨first, last, hends⟩ := (discerned_file hhouses).exists_ends hhouses hid
    have hfirst := hends.mem_tokensBelow.mpr ⟨Nat.le_refl first, hends.le⟩
    obtain ⟨hlt, habove⟩ := (hhouses.mem_tokensBelow_iff hid first).mp hfirst
    exact ⟨first, hlt, hfirst, habove⟩
  · obtain ⟨kind, field, children, hnode, hshown⟩ :=
      hdraws.covered _ (all_isNode_fileShape text limit) id hid
    rw [(Tree.kind_eq hshown).1]
    exact hnode
  · obtain ⟨token, hget, heq⟩ := hplace hid
    rw [(Prod.mk.inj heq).1]
    exact isToken_of_mem_fileShape (List.mem_of_getElem? hget)
  · -- all tokens but the last one belong to the items
    obtain ⟨token, hget, heq⟩ := hplace (Nat.lt_of_succ_lt hid)
    rw [tokens_fileShape, List.getElem?_append_left (by omega)] at hget
    have hitem := List.mem_of_getElem? hget
    obtain ⟨hkind, hspan⟩ := Prod.mk.inj heq
    rw [hkind, hspan]
    exact ⟨kind_ne_eof_of_mem_items hitem, span_lt_of_mem_items hitem⟩

/-- In the tree of every text no node is hollow, whatever the nesting limit. -/
theorem parse_isSolid {text : String} (h : text.utf8ByteSize < 2 ^ 32) (limit : Nat) :
    ∃ parse, parseWith text limit = .ok parse ∧ parse.tree.IsSolid := by
  obtain ⟨tree, hparse, -, hdraws⟩ := parseWith_eq h limit
  have hhouses : tree.Houses (fileShape text limit) :=
    Tree.houses_node (assemble_of_parseWith hparse)
  exact ⟨_, hparse, Tree.isSolid_file hdraws hhouses⟩

/-- A function that is kept although its parameters do not end, a brace that matches nothing, and an
enumeration with a stray character in place of its name. -/
theorem parse_isSolid_unfinished :
    ∃ parse, parseWith "int f( \x7d enum @" 1 = .ok parse ∧ parse.tree.IsSolid :=
  parse_isSolid (by decide) 1

end ScriptTree

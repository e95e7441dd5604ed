import ScriptTree.Proofs.Recovery.Confined
import ScriptTree.Proofs.Reported
import ScriptTree.Proofs.TreeDepth
import ScriptTree.View.Definition

/-!
Recovery does not eat the block around a malformed element. An error node of a tree closes only
braces that it opened, and closes all of them unless the text ends. A closing brace makes an error
node of its own where it closes nothing: at the top level of a file, and in the body of a class that
was written without braces.
-/

namespace ScriptTree

namespace Grammar

open Phrase

def bareRules (rule : Rule) : Bool :=
  rule == .member || rule == .declaration

theorem bare_grammar {rule : Rule} (h : bareRules rule = true) :
    (grammar rule).bare bareRules .full = true := by
  simp only [bareRules, Bool.or_eq_true, beq_iff_eq] at h
  rcases h with rfl | rfl
  · decide
  · decide

theorem confines_grammar (rule : Rule) :
    (grammar rule).confines bareRules false true .full = true := by
  cases rule with
  | expression least => cases least <;> decide
  | _ => decide +kernel

/-- At the top level of a file, repetition goes on at closing braces. -/
theorem confines_fileItems : fileItems.confines bareRules true true .full = true := by
  decide +kernel

/-- The error nodes of a file are confined. -/
theorem all_confines_fileShape (text : String) (limit : Nat) :
    (fileShape text limit).All (Shape.Confines text.utf8ByteSize) := by
  have hrules := rulesConfine_drawRule answers_grammar chosen_grammar
    (fun _ => bare_grammar) confines_grammar (ruleBudget limit)
  have hitems : (fileReading text limit).Confined text.utf8ByteSize true :=
    confined_draw hrules answers_fileItems confines_fileItems (grounded_ofText text limit)
      (KindSet.contains_full _) (Or.inl rfl)
  refine ⟨⟨nofun, fun _ _ _ => Or.inl rfl⟩, ?_⟩
  exact Shape.allOf_append.mpr ⟨hitems.all, trivial, trivial⟩

end Grammar

namespace Tree

def kindsBelow (tree : Tree) (id : NodeId) : List Kind :=
  (tree.tokensBelow id).map fun token => (tree.leaf token).kind

/-- A node stands where a closing brace closes nothing: at the top level of a file, or in the body
of a class without braces. -/
def IsUnbraced (tree : Tree) (id : NodeId) : Prop :=
  tree.kind id = .sourceFile ∨ ∃ body : ClassBody tree, body.node = id ∧ body.isBraceless = true

end Tree

namespace Shape

variable {tree : Tree} {home : Option NodeId} {site : Site} {kind : Kind} {field : Option Field}
  {children : List Shape}

/-- The tokens below a node are those of its shape. -/
theorem Sits.kindsBelow (h : (node kind field children).Sits tree home site) :
    tree.kindsBelow site.node = (tokensAll children).map (·.kind) := by
  have hplaces := congrArg (List.map Prod.fst) (SitsAll.places h.2)
  rw [map_fst_placesFrom, List.map_map] at hplaces
  rw [Tree.kindsBelow, Tree.tokensBelow, Tree.node_eq h.1.entry]
  exact hplaces

/-- If no leaf among the children of a node is of a kind, the tree finds no such token. -/
theorem Sits.tokenOf?_eq_none (h : (node kind field children).Sits tree home site) {wanted : Kind}
    (hnone : ∀ token slot, .leaf token slot ∈ children → token.kind ≠ wanted) :
    tree.tokenOf? site.node wanted = none := by
  rw [Tree.tokenOf?, List.find?_eq_none]
  intro id hmem
  obtain ⟨element, helement, htoken⟩ := List.mem_filterMap.mp hmem
  rw [h.1.elements] at helement
  obtain ⟨child, hchild, before, rfl, hsits⟩ := h.2.exists_of_mem helement
  cases child with
  | node _ _ _ => cases htoken
  | leaf token slot =>
    obtain rfl := Option.some.inj htoken
    obtain ⟨parent, -, hleaf, -⟩ := hsits
    rw [Tree.leaf_eq hleaf]
    simpa [leafAt] using hnone token slot hchild

/-- A closing brace alone stands where it closes nothing. -/
theorem Part.isUnbraced {whole shape : Shape} {size : Nat} (h : Part whole home shape site)
    (hw : whole.Sits tree none Site.front) (hconfines : whole.All (Confines size))
    (hwhole : whole.isLoneBrace = false) (hlone : shape.isLoneBrace = true) :
    ∃ parent, home = some parent ∧ tree.IsUnbraced parent := by
  cases h with
  | whole => simp [hwhole] at hlone
  | @child _ kind field before after _ site hparent =>
    have hsits := hparent.sits hw
    refine ⟨site.node, rfl, ?_⟩
    have hmem : shape ∈ before ++ shape :: after := by simp
    rcases (hparent.all hconfines).1.lone shape hmem hlone with rfl | ⟨rfl, hfree⟩
    · exact Or.inl hsits.kind_node
    · refine Or.inr ⟨⟨site.node, beq_iff_eq.mpr hsits.kind_node⟩, rfl, ?_⟩
      rw [ClassBody.isBraceless, hsits.tokenOf?_eq_none hfree]
      rfl

/-- Where tokens lie side by side on a text, a part whose last token ends at an offset ends there.
-/
theorem Part.stop_eq {whole shape : Shape} (h : Part whole home shape site) {text : String}
    {stop : Cursor} (htiled : Tiled (.ofText text) whole.tokens stop) {offset : Nat}
    (hend : Token.EndAt offset shape.tokens) : site.offset + widthOf shape.tokens = offset := by
  obtain ⟨front, back, htokens, -, hfront⟩ := h.exists_tokens
  obtain ⟨inner, last, hshape, rfl⟩ := hend
  rw [htokens] at htiled
  obtain ⟨behind, hbehind, -⟩ := htiled.split
  have hoffset := hbehind.offset_eq
  rw [widthOf_append, hfront] at hoffset
  rw [hshape, ← List.append_assoc] at hbehind
  obtain ⟨_, -, hlast⟩ := hbehind.split
  cases hlast with
  | cons hfills hnil =>
    obtain rfl := hnil.eq_of_nil
    obtain ⟨_, middle, -, -, hspan, htrailing⟩ := hfills
    rw [Token.stop, hspan, ← htrailing.offset_eq, hoffset]
    exact (Nat.zero_add _).symm

end Shape

open Grammar

/-- In the tree of every text, an error node holds a closing brace alone, and then its parent has no
braces that it could close. Or it closes only braces that it opened, and all of them unless it
reaches the end of the text. -/
theorem errors_contained {text : String} (h : text.utf8ByteSize < 2 ^ 32) (limit : Nat) :
    ∃ parse, parseWith text limit = .ok parse ∧
      ∀ id < parse.tree.nodeCount, parse.tree.kind id = .error →
        let kinds := parse.tree.kindsBelow id
        (kinds = [.rightBrace] →
          ∃ parent, parse.tree.parent? id = some parent ∧ parse.tree.IsUnbraced parent) ∧
        (kinds ≠ [.rightBrace] →
          (∀ front, front <+: kinds → front.count .rightBrace ≤ front.count .leftBrace) ∧
          ((parse.tree.nodeSpan id).stop ≠ text.utf8ByteSize →
            kinds.count .rightBrace = kinds.count .leftBrace)) := by
  obtain ⟨tree, hparse, -, -⟩ := parseWith_eq h limit
  have hhouses : tree.Houses (fileShape text limit) :=
    Tree.houses_node (assemble_of_parseWith hparse)
  have hconfines := all_confines_fileShape text limit
  obtain ⟨stop, htiled, -⟩ := tiled_fileShape text limit
  refine ⟨_, hparse, fun id hid hkind => ?_⟩
  obtain ⟨home, kind, field, children, site, hpart, rfl⟩ := hhouses.exists_node hid
  have hsits := hpart.sits hhouses.sits
  obtain rfl : kind = .error := hsits.kind_node.symm.trans hkind
  have hcontained := (hpart.all hconfines).1.contained rfl
  simp only [hsits.kindsBelow]
  refine ⟨fun hlone => ?_, fun hlone => ?_⟩
  · obtain ⟨parent, rfl, hunbraced⟩ := hpart.isUnbraced hhouses.sits hconfines rfl
      (by simp [Shape.isLoneBrace, hlone])
    exact ⟨parent, hsits.home?_element, hunbraced⟩
  · obtain ⟨hnests, hcount⟩ := hcontained.resolve_left hlone
    refine ⟨fun front hfront => ?_, fun hstop => ?_⟩
    · simpa using hnests front hfront
    · refine hcount.resolve_right fun hend => hstop ?_
      have hspan := congrArg Span.stop hsits.elementSpan_element
      exact hspan.trans (hpart.stop_eq htiled hend)

def strayBrace : String :=
  "class A; \x7d int"

/-- A brace that closes nothing is an error node by itself, under a node without braces of its own.
-/
theorem strayBrace_contained : strayBrace.utf8ByteSize < 2 ^ 32 ∧
    ∃ parse, parseWith strayBrace 1 = .ok parse ∧
      parse.tree.kind 4 = .error ∧ parse.tree.kindsBelow 4 = [.rightBrace] ∧
      ∃ parent, parse.tree.parent? 4 = some parent ∧ parse.tree.IsUnbraced parent := by
  have hsize : strayBrace.utf8ByteSize < 2 ^ 32 := by decide
  refine ⟨hsize, ?_⟩
  obtain ⟨parse, hparse, hall⟩ := errors_contained hsize 1
  have hlone : (parseWith strayBrace 1).toOption.any (fun parse =>
      4 < parse.tree.nodeCount && parse.tree.kind 4 == .error &&
        parse.tree.kindsBelow 4 == [.rightBrace]) = true := by
    decide +kernel
  rw [hparse] at hlone
  obtain ⟨⟨hid, hkind⟩, hkinds⟩ : (4 < parse.tree.nodeCount ∧ parse.tree.kind 4 = .error) ∧
      parse.tree.kindsBelow 4 = [.rightBrace] := by
    simpa [Except.toOption] using hlone
  exact ⟨parse, hparse, hkind, hkinds, (hall 4 hid hkind).1 hkinds⟩

end ScriptTree

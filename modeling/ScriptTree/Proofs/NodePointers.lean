import ScriptTree.Proofs.Grammar.Filled
import ScriptTree.Proofs.Tree.Pointers

/-!
Pointers to nodes. In the tree of every text, whatever is wrong with the text, the kind and the span
of a node lead back to that node.
-/

namespace ScriptTree

namespace Shape

variable {holds : Kind → List Shape → Prop}

/-- If no node is empty, there is a token below every shape. -/
theorem tokens_ne_nil (hne : ∀ kind children, holds kind children → children ≠ []) :
    ∀ {shape : Shape}, shape.All holds → shape.tokens ≠ []
  | .leaf token field, _ => by simp [tokens]
  | .node kind field [], h => absurd rfl (hne kind [] h.1)
  | .node kind field (first :: rest), h => by
    rw [tokens, tokensAll]
    exact List.append_ne_nil_of_left_ne_nil (tokens_ne_nil hne h.2.1) _

mutual

/-- What all tokens below a shape meet, its leaves meet. -/
theorem all_of_tokens {meets : Token → Prop} : ∀ {shape : Shape},
    (∀ token ∈ shape.tokens, meets token) →
    shape.All fun _ children => ∀ token field, .leaf token field ∈ children → meets token
  | .leaf token field, _ => trivial
  | .node kind field children, h => by
    refine ⟨fun token slot hmem => h token ?_, allOf_of_tokens h⟩
    obtain ⟨before, after, rfl⟩ := List.append_of_mem hmem
    simp [tokens, tokensAll]

theorem allOf_of_tokens {meets : Token → Prop} : ∀ {shapes : List Shape},
    (∀ token ∈ tokensAll shapes, meets token) →
    AllOf (fun _ children => ∀ token field, .leaf token field ∈ children → meets token) shapes
  | [], _ => trivial
  | shape :: rest, h => by
    rw [tokensAll] at h
    exact ⟨all_of_tokens fun token hmem => h token (List.mem_append_left _ hmem),
      allOf_of_tokens fun token hmem => h token (List.mem_append_right _ hmem)⟩

end

end Shape

namespace Grammar

/-- The kinds of nodes that never have a single node and nothing else. -/
def flatKinds : KindSet :=
  .ofClass fun kind => (soleKinds kind).isEmpty

def thickness (kind : Kind) : Nat :=
  if (soleKinds kind).isEmpty then 0 else if (soleKinds kind).isSubset flatKinds then 1 else 2

/-- What may be all that a node has is thinner than the node. -/
theorem thickness_lt {kind below : Kind} (h : (soleKinds kind).contains below = true) :
    thickness below < thickness kind := by
  have hnever : (soleKinds kind).isEmpty = false := KindSet.not_isEmpty_of_contains h
  by_cases hflat : (soleKinds kind).isSubset flatKinds = true
  · have hbelow := KindSet.contains_of_isSubset hflat h
    rw [flatKinds, KindSet.contains_ofClass] at hbelow
    simp [thickness, hnever, hflat, hbelow]
  · -- no node lies at the bottom of three such nodes
    have hall : (Kind.all.all fun kind =>
        (soleKinds kind).isSubset (.ofClass fun below => thickness below ≤ 1)) = true := by
      decide +kernel
    have hkind := List.all_eq_true.mp hall kind (Kind.mem_all kind)
    have hbelow := KindSet.contains_of_isSubset hkind h
    rw [KindSet.contains_ofClass, decide_eq_true_iff] at hbelow
    have htwo : thickness kind = 2 := by simp [thickness, hnever, hflat]
    omega

/-- The tokens of the items of a file have characters. -/
theorem span_lt_of_mem_items {text : String} {limit : Nat} {token : Token}
    (h : token ∈ Shape.tokensAll (fileReading text limit).shapes) :
    token.span.start < token.span.stop := by
  obtain ⟨tokens, hreads, hkinds, hcleared, -⟩ := (accounted_fileReading text limit).reads
  have hmem : token.cleared ∈ tokens.map Token.cleared := hcleared ▸ List.mem_map_of_mem h
  obtain ⟨read, hread, heq⟩ := List.mem_map.mp hmem
  -- of the tokens that are read only the end of the text is empty, and no item takes it
  have hlt := hreads.span_lt (Lexer.place_placed _ _ _) hread (hkinds read hread)
  have hspan : read.span = token.span := by
    show read.cleared.span = token.cleared.span
    rw [heq]
  rwa [hspan] at hlt

section

variable {text : String} {limit : Nat} {tree : Tree} {home : Option NodeId} {shape : Shape}
  {site : Site}

/-- The parts of a file are filled as their kinds ask. -/
theorem filled_of_part (h : (fileShape text limit).Part home shape site) (hhome : home ≠ none) :
    shape.All Filled := by
  -- the end of the text stands behind the items and is no node
  refine h.all_below hhome fun kind field children hfile => ?_
  obtain ⟨-, -, rfl⟩ := Shape.node.inj hfile
  exact Shape.allOf_append.mpr ⟨filled_fileReading text limit, trivial, trivial⟩

/-- There is a token below every part of a file. -/
theorem tokens_ne_nil_of_part (h : (fileShape text limit).Part home shape site) :
    shape.tokens ≠ [] := by
  by_cases hhome : home = none
  · subst hhome
    cases h
    simp [fileShape, Shape.tokens]
  · exact Shape.tokens_ne_nil (fun _ _ hfilled => hfilled.ne_nil) (filled_of_part h hhome)

/-- Tokens that stand in a part of a file have characters. -/
theorem span_lt_of_leaf {kind : Kind} {field slot : Option Field} {children : List Shape}
    {token : Token} (h : (fileShape text limit).Part home (.node kind field children) site)
    (hhome : home ≠ none) (hmem : .leaf token slot ∈ children) :
    token.span.start < token.span.stop := by
  have hall : (Shape.node kind field children).All fun _ children =>
      ∀ token field, .leaf token field ∈ children → token.span.start < token.span.stop := by
    refine h.all_below hhome fun kind field children hfile => ?_
    obtain ⟨-, -, rfl⟩ := Shape.node.inj hfile
    exact Shape.allOf_append.mpr
      ⟨Shape.allOf_of_tokens fun _ => span_lt_of_mem_items, trivial, trivial⟩
  exact hall.1 token slot hmem

theorem home_ne_none (h : (fileShape text limit).Part home shape site) (hne : site.node ≠ 0) :
    home ≠ none := by
  rintro rfl
  cases h
  exact hne rfl

theorem kind_root (h : tree.Houses (fileShape text limit)) :
    tree.kind Tree.root = .sourceFile := by
  have hsits := h.sits
  rw [fileShape] at hsits
  exact hsits.kind_node

/-- Below a node inside a file, tokens have characters. -/
theorem span_lt_of_mem_tokensBelow (h : tree.Houses (fileShape text limit)) {id : NodeId}
    (hid : id < tree.nodeCount) (hne : id ≠ Tree.root) {token : TokenId}
    (hmem : token ∈ tree.tokensBelow id) :
    (tree.leaf token).span.start < (tree.leaf token).span.stop := by
  obtain ⟨hleaf, habove⟩ := (h.mem_tokensBelow_iff hid token).mp hmem
  obtain ⟨home, shape, site, hpart, helement⟩ := h.exists_part (.token token) hleaf
  cases shape with
  | node kind field children => cases helement
  | leaf held slot =>
    cases hpart with
    | @child home kind field before after _ site hpart =>
      obtain rfl := Element.token.inj helement
      obtain ⟨parent, hparent, hentry, -⟩ := (Shape.Part.child hpart).sits h.sits
      obtain rfl := Option.some.inj hparent
      rw [Tree.leaf_eq hentry] at habove ⊢
      -- only the end of the text stands in the root itself
      have hinside : site.node ≠ 0 := by
        intro hroot
        have hle := h.le_of_mem_ancestors (hpart.sits h.sits).has habove
        exact hne (Nat.le_zero.mp (hroot ▸ hle))
      have hheld : Shape.leaf held slot ∈ before ++ .leaf held slot :: after := by simp
      have hlt := span_lt_of_leaf hpart (home_ne_none hpart hinside) hheld
      simp only [Shape.leafAt, Span.sized, Span.size]
      omega

/-- A node inside a file that is all that a node has is thinner than that node. -/
theorem thickness_lt_of_elements (h : tree.Houses (fileShape text limit)) {id child : NodeId}
    (hid : id < tree.nodeCount) (hne : id ≠ Tree.root)
    (helements : tree.elements id = [.node child]) :
    thickness (tree.kind child) < thickness (tree.kind id) := by
  obtain ⟨home, kind, field, children, site, hpart, rfl⟩ := h.exists_node hid
  have hfilled := (filled_of_part hpart (home_ne_none hpart hne)).1
  have hsits := hpart.sits h.sits
  rw [hsits.kind_node]
  obtain ⟨hlists, hall⟩ := hsits
  rw [hlists.elements] at helements
  have hlength := congrArg List.length helements
  rw [Shape.length_elementsFrom] at hlength
  obtain ⟨below, rfl⟩ := List.length_eq_one_iff.mp hlength
  cases below with
  | leaf token slot => cases helements
  | node below slot inside =>
    obtain rfl := Element.node.inj (List.singleton_inj.mp helements)
    rw [hall.1.kind_node]
    exact thickness_lt (hfilled.sole below slot inside rfl)

/-- The nodes of the tree of a file are told apart by their kinds and their tokens. -/
theorem discerned_file (h : tree.Houses (fileShape text limit)) : tree.Discerned thickness where
  full id hid := by
    obtain ⟨home, kind, field, children, site, hpart, rfl⟩ := h.exists_node hid
    have hrun : (tree.node site.node).tokens =
        ⟨site.token, (Shape.node kind field children).tokens.length⟩ :=
      (hpart.sits h.sits).tokenRun_element
    rw [hrun]
    exact List.length_pos_of_ne_nil (tokens_ne_nil_of_part hpart)
  solid _ hid hne _ hmem := span_lt_of_mem_tokensBelow h hid hne hmem
  inner id hid hne := by
    obtain ⟨home, kind, field, children, site, hpart, rfl⟩ := h.exists_node hid
    have hfilled := filled_of_part hpart (home_ne_none hpart hne)
    rw [(hpart.sits h.sits).kind_node, kind_root h]
    exact hfilled.1.inner
  sole _ hid hne _ helements := thickness_lt_of_elements h hid hne helements

end

end Grammar

open Grammar

/-- In the tree of every text, every node is found again by its kind and its span. -/
theorem parse_pointers_resolve {text : String} (h : text.utf8ByteSize < 2 ^ 32) (limit : Nat) :
    ∃ parse, parseWith text limit = .ok parse ∧ ∀ id < parse.tree.nodeCount,
      (NodePointer.ofNode parse.tree id).resolve? parse.tree Tree.root = some id := by
  obtain ⟨tree, hparse, -, -⟩ := parseWith_eq h limit
  have hhouses : tree.Houses (fileShape text limit) :=
    Tree.houses_node (assemble_of_parseWith hparse)
  exact ⟨_, hparse, fun _ hid => (discerned_file hhouses).resolve?_ofNode hhouses hid⟩

/-- The types, the type and the name in front of `f` share their span, and the brace is an error. -/
theorem parse_pointers_resolve_unmatched :
    ∃ parse, parseWith "int f(); \x7d" 20 = .ok parse ∧ ∀ id < parse.tree.nodeCount,
      (NodePointer.ofNode parse.tree id).resolve? parse.tree Tree.root = some id :=
  parse_pointers_resolve (by decide) 20

end ScriptTree

import ScriptTree.Kind.Class
import ScriptTree.Proofs.Grammar.File
import ScriptTree.Proofs.Parser.Pattern

/-!
What nodes need: for each kind, which children a node has in any case, in which slots and of which
kinds. A node of a quiet reading has all that it needs, which is told from the grammar by a survey
of its rules.
-/

namespace ScriptTree

inductive Spot where
  | anywhere
  | inside (slot : Field)
  | outside (slot : Field)
  deriving DecidableEq, Repr, Inhabited

def Spot.takes : Spot → Option Field → Bool
  | .anywhere, _ => true
  | .inside slot, field => field == some slot
  | .outside slot, field => field != some slot

/-- What a node may need of its children. -/
inductive Need where
  /-- All nodes at the spot are of these kinds. -/
  | every (spot : Spot) (kinds : KindSet)
  /-- Some node at the spot is of one of these kinds. -/
  | some (spot : Spot) (kinds : KindSet)
  /-- Some token fills the slot. -/
  | token (slot : Field)
  /-- The first child is a token that is one of the words, up to case. -/
  | word (words : List String)
  /-- The number of nodes in the slot is within bounds. -/
  | count (slot : Field) (least most : Nat)
  /-- The nodes in the slot need something of their own children. -/
  | inner (slot : Field) (need : Need)
  deriving Repr, Inhabited

def Shape.fills (slot : Field) : Shape → Bool
  | .leaf _ _ => false
  | .node _ field _ => field == some slot

namespace Pattern

def keeps (spot : Spot) (kinds : KindSet) : Pattern → Bool
  | .token _ _ => true
  | .node made field _ => !spot.takes field || made.isSubset kinds
  | .many nodes => nodes.all fun entry => !spot.takes entry.1 || entry.2.isSubset kinds
  | .any => false

def puts (spot : Spot) (kinds : KindSet) : Pattern → Bool
  | .node made field _ => spot.takes field && made.isSubset kinds
  | _ => false

def putsToken (slot : Field) : Pattern → Bool
  | .token _ field => field == some slot
  | _ => false

def spells (words : List String) : List Pattern → Bool
  | .token known _ :: _ => known.words.any fun before => before.all words.contains
  | _ => false

def count? (slot : Field) : List Pattern → Option Nat
  | [] => some 0
  | .token _ _ :: rest => count? slot rest
  | .node _ field _ :: rest =>
    (count? slot rest).map fun count => if field == some slot then count + 1 else count
  | .many nodes :: rest =>
    if nodes.all fun entry => entry.1 != some slot then count? slot rest else none
  | .any :: _ => none

def keepsBelow (slot : Field) (check : List Pattern → Bool) : Pattern → Bool
  | .token _ _ => true
  | .node _ field below => field != some slot || check below
  | .many nodes => nodes.all fun entry => entry.1 != some slot
  | .any => false

variable {parts : List Pattern} {shapes : List Shape}

/-- Every shape is covered by a part of the pattern. -/
theorem Fits.exists_part (h : Fits parts shapes) {shape : Shape} (hmem : shape ∈ shapes) :
    ∃ part ∈ parts, ∃ covered, part.Covers covered ∧ shape ∈ covered := by
  induction parts generalizing shapes with
  | nil =>
    rw [Fits] at h
    simp [h] at hmem
  | cons part rest ih =>
    rw [Fits] at h
    obtain ⟨front, back, rfl, hpart, hrest⟩ := h
    rcases List.mem_append.mp hmem with hmem | hmem
    · exact ⟨part, List.mem_cons_self, front, hpart, hmem⟩
    · obtain ⟨other, hother, hcovers⟩ := ih hrest hmem
      exact ⟨other, List.mem_cons_of_mem _ hother, hcovers⟩

/-- Every part of the pattern covers some of the shapes. -/
theorem Fits.exists_shapes (h : Fits parts shapes) {part : Pattern} (hmem : part ∈ parts) :
    ∃ covered, part.Covers covered ∧ covered ⊆ shapes := by
  induction parts generalizing shapes with
  | nil => cases hmem
  | cons first rest ih =>
    rw [Fits] at h
    obtain ⟨front, back, rfl, hfirst, hrest⟩ := h
    rcases List.mem_cons.mp hmem with rfl | hmem
    · exact ⟨front, hfirst, List.subset_append_left _ _⟩
    · obtain ⟨covered, hcovers, hsub⟩ := ih hrest hmem
      exact ⟨covered, hcovers, List.subset_append_of_subset_right _ hsub⟩

/-- A node at a spot is of the kinds that the part of the pattern has for it. -/
theorem Covers.contains_of_keeps {part : Pattern} (h : part.Covers shapes) {spot : Spot}
    {kinds : KindSet} (hk : part.keeps spot kinds = true) {kind : Kind} {field : Option Field}
    {below : List Shape} (hmem : .node kind field below ∈ shapes)
    (hspot : spot.takes field = true) : kinds.contains kind = true := by
  cases part with
  | token known slot =>
    rw [Covers] at h
    obtain ⟨token, rfl, -⟩ := h
    simp at hmem
  | node made slot inside =>
    rw [Covers] at h
    obtain ⟨kind', children, rfl, hkind, -⟩ := h
    rw [List.mem_singleton] at hmem
    injection hmem with heq hslot
    rw [keeps, ← hslot, hspot, Bool.not_true, Bool.false_or] at hk
    rw [heq]
    exact KindSet.contains_of_isSubset hk hkind
  | many nodes =>
    rw [Covers] at h
    obtain ⟨made, hmade, hkind⟩ := h kind field below hmem
    have hentry := List.all_eq_true.mp hk _ hmade
    rw [hspot, Bool.not_true, Bool.false_or] at hentry
    exact KindSet.contains_of_isSubset hentry hkind
  | any => cases hk

/-- Parts that have a fixed number of nodes in a slot say how many nodes are there. -/
theorem Fits.count_eq (h : Fits parts shapes) {slot : Field} {count : Nat}
    (hc : count? slot parts = some count) : shapes.countP (Shape.fills slot) = count := by
  induction parts generalizing shapes count with
  | nil =>
    rw [Fits] at h
    obtain rfl := Option.some.inj hc
    simp [h]
  | cons part rest ih =>
    rw [Fits] at h
    obtain ⟨front, back, rfl, hpart, hrest⟩ := h
    rw [List.countP_append]
    cases part with
    | token known field =>
      rw [Covers] at hpart
      obtain ⟨token, rfl, -⟩ := hpart
      rw [ih hrest hc]
      simp [Shape.fills]
    | node made field below =>
      rw [Covers] at hpart
      obtain ⟨kind, children, rfl, -⟩ := hpart
      obtain ⟨more, hmore, rfl⟩ := Option.map_eq_some_iff.mp hc
      rw [ih hrest hmore, List.countP_singleton, Shape.fills]
      split <;> omega
    | many nodes =>
      rw [count?] at hc
      split at hc
      · next hall =>
        -- nodes of a repetition stand in other slots
        have hnone : front.countP (Shape.fills slot) = 0 := by
          rw [List.countP_eq_zero]
          intro shape hmem hfills
          cases shape with
          | leaf token field => cases hfills
          | node kind field children =>
            rw [Covers] at hpart
            obtain ⟨made, hmade, -⟩ := hpart kind field children hmem
            have hentry := List.all_eq_true.mp hall _ hmade
            rw [bne_iff_ne] at hentry
            exact hentry (beq_iff_eq.mp hfills)
        rw [hnone, ih hrest hc, Nat.zero_add]
      · cases hc
    | any => cases hc

end Pattern

namespace Need

def Met : Need → List Shape → Prop
  | .every spot kinds, children => ∀ kind field below, .node kind field below ∈ children →
    spot.takes field = true → kinds.contains kind = true
  | .some spot kinds, children => ∃ kind field below, .node kind field below ∈ children ∧
    spot.takes field = true ∧ kinds.contains kind = true
  | .token slot, children => ∃ token, .leaf token (Option.some slot) ∈ children
  | .word words, children => ∃ token field rest, children = .leaf token field :: rest ∧
    Text.lower token.text ∈ words
  | .count slot least most, children => least ≤ children.countP (Shape.fills slot) ∧
    children.countP (Shape.fills slot) ≤ most
  | .inner slot need, children => ∀ kind below,
    .node kind (Option.some slot) below ∈ children → need.Met below

def secured : Need → List Pattern → Bool
  | .every spot kinds, parts => parts.all (·.keeps spot kinds)
  | .some spot kinds, parts => parts.any (·.puts spot kinds)
  | .token slot, parts => parts.any (·.putsToken slot)
  | .word words, parts => Pattern.spells words parts
  | .count slot least most, parts =>
    (Pattern.count? slot parts).any fun count => least ≤ count && count ≤ most
  | .inner slot need, parts => parts.all (·.keepsBelow slot need.secured)

/-- What the patterns of a node secure is met by its children. -/
theorem met_of_secured {need : Need} {parts : List Pattern} {children : List Shape}
    (h : need.secured parts = true) (hfits : Pattern.Fits parts children) : need.Met children := by
  induction need generalizing parts children with
  | every spot kinds =>
    intro kind field below hmem hspot
    -- the node is covered by one of the parts, and all of these keep to the kinds
    obtain ⟨part, hpart, covered, hcovers, hin⟩ := hfits.exists_part hmem
    exact hcovers.contains_of_keeps (List.all_eq_true.mp h part hpart) hin hspot
  | some spot kinds =>
    obtain ⟨part, hpart, hputs⟩ := List.any_eq_true.mp h
    -- one part puts something there by itself, whatever the others cover
    obtain ⟨covered, hcovers, hsub⟩ := hfits.exists_shapes hpart
    cases part with
    | node made field below =>
      rw [Pattern.Covers] at hcovers
      obtain ⟨kind, inside, rfl, hkind, -⟩ := hcovers
      rw [Pattern.puts, Bool.and_eq_true] at hputs
      exact ⟨kind, field, inside, hsub (List.mem_singleton_self _), hputs.1,
        KindSet.contains_of_isSubset hputs.2 hkind⟩
    | _ => cases hputs
  | token slot =>
    obtain ⟨part, hpart, hputs⟩ := List.any_eq_true.mp h
    obtain ⟨covered, hcovers, hsub⟩ := hfits.exists_shapes hpart
    cases part with
    | token known field =>
      rw [Pattern.Covers] at hcovers
      obtain ⟨token, rfl, -⟩ := hcovers
      rw [Pattern.putsToken, beq_iff_eq] at hputs
      exact ⟨token, hputs ▸ hsub (List.mem_singleton_self _)⟩
    | _ => cases hputs
  | word words =>
    -- only a first part that is a token says how the node is spelled
    unfold secured Pattern.spells at h
    split at h
    · next known field rest =>
      rw [Pattern.Fits] at hfits
      obtain ⟨front, back, rfl, hpart, -⟩ := hfits
      rw [Pattern.Covers] at hpart
      obtain ⟨token, rfl, hknown⟩ := hpart
      rw [Option.any_eq_true] at h
      obtain ⟨before, hbefore, hall⟩ := h
      have hword := List.all_eq_true.mp hall _ (hknown.word before hbefore)
      exact ⟨token, field, back, rfl, List.contains_iff_mem.mp hword⟩
    · cases h
  | count slot least most =>
    rw [secured, Option.any_eq_true] at h
    obtain ⟨count, hcount, hbounds⟩ := h
    rw [Bool.and_eq_true, decide_eq_true_iff, decide_eq_true_iff] at hbounds
    rw [Met, hfits.count_eq hcount]
    exact hbounds
  | inner slot need ih =>
    intro kind below hmem
    obtain ⟨part, hpart, covered, hcovers, hin⟩ := hfits.exists_part hmem
    have hkeeps := List.all_eq_true.mp h part hpart
    cases part with
    | token known field =>
      rw [Pattern.Covers] at hcovers
      obtain ⟨token, rfl, -⟩ := hcovers
      simp at hin
    | node made field inside =>
      rw [Pattern.Covers] at hcovers
      obtain ⟨kind', children', rfl, -, hinside⟩ := hcovers
      rw [List.mem_singleton] at hin
      injection hin with _ hslot hbelow
      rw [Pattern.keepsBelow, ← hslot, bne_self_eq_false, Bool.false_or] at hkeeps
      rw [hbelow]
      exact ih hkeeps hinside
    | many nodes =>
      rw [Pattern.Covers] at hcovers
      obtain ⟨made, hmade, -⟩ := hcovers kind _ below hin
      have hentry := List.all_eq_true.mp hkeeps _ hmade
      simp at hentry
    | any => cases hkeeps

end Need

def KindSet.ofClass (isMember : Kind → Bool) : KindSet :=
  .ofList (Kind.all.filter isMember)

@[simp] theorem KindSet.contains_ofClass (isMember : Kind → Bool) (kind : Kind) :
    (KindSet.ofClass isMember).contains kind = isMember kind := by
  rw [Bool.eq_iff_iff, ofClass, KindSet.contains_ofList, List.mem_filter]
  exact ⟨And.right, fun h => ⟨Kind.mem_all kind, h⟩⟩

namespace Grammar

open Phrase Reading

def part (slot : Field) (kinds : KindSet) : List Need :=
  [.some (.inside slot) kinds, .every (.inside slot) kinds]

def namePart : List Need :=
  part .name (.single .ident)

def expressionPart (slot : Field) : List Need :=
  part slot (.ofClass Kind.isExpression)

def typePart : List Need :=
  part .type (.ofClass Kind.isTypeSpecifier)

/-- What nodes of a kind need of their children. Where several lists are given, a node has what one
of them says. -/
def needs : Kind → List (List Need)
  | .sourceFile => [[.every .anywhere (.ofClass Kind.isItem)]]
  | .compoundStatement => [[.every .anywhere (.ofClass Kind.isStatement)]]
  | .statesBlock =>
    [[.every (.outside .scope) (.ofClass Kind.isStateItem),
      .every (.inside .scope) (.single .statesScope)]]
  | .classDefinition => [namePart ++ part .body (.single .classBody)]
  | .structDefinition => [namePart ++ part .body (.single .structBody)]
  | .enumDefinition | .enumerator => [namePart]
  | .parameter => [namePart ++ typePart]
  | .constDefinition => [namePart ++ expressionPart .value]
  | .functionDefinition =>
    [namePart ++ part .parameters (.single .parameterList) ++
      part .returnTypes (.single .returnTypes)]
  | .returnTypes => [typePart]
  | .fieldDeclaration | .localDeclaration =>
    [typePart ++ part .declarator (.ofClass Kind.isDeclarator)]
  | .variableDeclarator | .arrayDeclarator =>
    -- a declarator that is written as a call has its name in front of the arguments
    [namePart,
     part .value (.single .callExpr) ++ (part .function (.single .nameRef)).map (.inner .value)]
  | .ifStatement =>
    [expressionPart .condition ++ part .consequence (.ofClass Kind.isStatement) ++
      [.every (.inside .alternative) (.single .elseClause),
       .every (.outside .alternative) (.ofClass (· != .elseClause))]]
  | .elseClause => [[.some .anywhere (.ofClass Kind.isStatement)]]
  | .binaryExpr | .assignmentExpr =>
    [.token .operator :: (expressionPart .left ++ expressionPart .right)]
  | .conditionalExpr =>
    [expressionPart .condition ++ expressionPart .consequence ++ expressionPart .alternative]
  | .prefixExpr | .postfixExpr => [.token .operator :: expressionPart .operand]
  | .castExpr => [typePart ++ expressionPart .operand]
  | .callExpr => [expressionPart .function ++ part .arguments (.single .argumentList)]
  | .memberExpr => [expressionPart .object ++ part .member (.single .ident)]
  | .indexExpr => [expressionPart .object ++ expressionPart .index]
  | .parenExpr => [expressionPart .value]
  | .vectorLiteral =>
    [[.every (.inside .component) (.ofClass Kind.isExpression), .count .component 2 4]]
  | .stateLine =>
    [.token .sprite :: .token .frames :: part .duration (.single .stateDuration)]
  | .stateFlow =>
    [.word ["goto"] :: part .target (.single .gotoTarget),
     [.word ["loop", "stop", "wait", "fail"], .every (.inside .target) .empty]]
  | .gotoTarget => [part .label (.ofList [.ident, .dottedName])]
  | .stateLabel => [part .name (.ofList [.ident, .dottedName])]
  | _ => [[]]

def Complete (kind : Kind) (children : List Shape) : Prop :=
  ∃ list ∈ needs kind, ∀ need ∈ list, need.Met children

def isComplete (kind : Kind) (parts : List Pattern) : Bool :=
  (needs kind).any fun list => list.all (·.secured parts)

theorem complete_of_isComplete (kind : Kind) (parts : List Pattern) (children : List Shape)
    (h : isComplete kind parts = true) (hfits : Pattern.Fits parts children) :
    Complete kind children := by
  obtain ⟨list, hlist, hall⟩ := List.any_eq_true.mp h
  exact ⟨list, hlist, fun need hneed =>
    Need.met_of_secured (List.all_eq_true.mp hall need hneed) hfits⟩

def yields : Rule → Option Field × KindSet
  | .expression _ | .unary | .suffixed => (none, .ofClass Kind.isExpression)
  | .arguments => (some .arguments, .single .argumentList)
  | .type => (none, .ofClass Kind.isTypeSpecifier)
  | .initializers => (none, .single .initializerList)
  | .declarator => (some .declarator, .ofClass Kind.isDeclarator)
  | .compound => (none, .single .compoundStatement)
  | .statement => (none, .ofClass Kind.isStatement)
  | .declaration => (none, .ofList [.functionDefinition, .fieldDeclaration])
  | .member => (none, .full)

theorem conforms_expression (least : Precedence) :
    (grammar (.expression least)).conforms isComplete yields none (.ofClass Kind.isExpression) =
      true := by
  cases least <;> decide +kernel

/-- All nodes that the rules make have the children that they need. -/
theorem conforms_grammar (rule : Rule) :
    (grammar rule).conforms isComplete yields (yields rule).1 (yields rule).2 = true := by
  cases rule with
  | expression least => exact conforms_expression least
  | _ => decide +kernel

/-- All nodes of a file without reports have the children that they need. -/
theorem complete_fileShape {text : String} {limit : Nat}
    (h : (fileReading text limit).reports = []) : (fileShape text limit).All Complete := by
  have hquiet : Quiet (fileReading text limit) := ⟨(covers_fileReading text limit).keeps, h⟩
  have hrules := rulesYield_drawRule complete_of_isComplete conforms_grammar (ruleBudget limit)
  have hpaths : (fileItems.survey isComplete yields .vague).any (fun paths => paths.all fun path =>
      isComplete .sourceFile (path.parts ++ [.token .vague none])) = true := by
    decide +kernel
  rw [Option.any_eq_true] at hpaths
  obtain ⟨paths, hsurvey, hall⟩ := hpaths
  obtain ⟨hmeets, path, hpath, hdescribes⟩ :=
    isSurveyed complete_of_isComplete (accounts_drawRule grammar _) hrules fileItems hsurvey
      (Prospect.holds_vague _) hquiet
  have hlast : Pattern.Fits [.token .vague none]
      [.leaf (fileReading text limit).lexer.current none] := by
    rw [Pattern.fits_singleton, Pattern.Covers]
    exact ⟨_, rfl, Prospect.holds_vague _⟩
  refine ⟨?_, Shape.allOf_append.mpr ⟨hmeets, trivial, trivial⟩⟩
  exact complete_of_isComplete _ _ _ (List.all_eq_true.mp hall path hpath)
    (hdescribes.parts.append hlast)

end Grammar

end ScriptTree

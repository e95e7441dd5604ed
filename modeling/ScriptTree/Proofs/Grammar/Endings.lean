import ScriptTree.Proofs.Grammar.Needs

/-!
How expressions end. For each kind of expression, and for the kinds of nodes that expressions end
in, the grammar tells which tokens and which nodes can come last. So the last token of an expression
is one that can end an operand, or one of the two words `default` and `new`.
-/

namespace ScriptTree

structure Closing where
  tokens : KindSet
  nodes : KindSet
  deriving Repr

def Closing.Allows (closing : Closing) : Shape → Prop
  | .leaf token _ => closing.tokens.contains token.kind = true
  | .node kind _ _ => closing.nodes.contains kind = true

/-- A pattern describes the last shapes by its last part. -/
theorem Pattern.Fits.exists_back {parts : List Pattern} {shapes : List Shape}
    (h : Fits parts shapes) {last : Pattern} (hlast : parts.getLast? = some last) :
    ∃ front back, shapes = front ++ back ∧ last.Covers back := by
  induction parts generalizing shapes with
  | nil => cases hlast
  | cons part rest ih =>
    rw [Fits] at h
    obtain ⟨front, back, rfl, hpart, hrest⟩ := h
    cases rest with
    | nil =>
      obtain rfl : part = last := Option.some.inj hlast
      rw [Fits] at hrest
      obtain rfl := hrest
      exact ⟨[], front, List.append_nil front, hpart⟩
    | cons next more =>
      have hnext : (next :: more).getLast? = some last := by
        rw [← hlast, List.getLast?_cons_cons]
      obtain ⟨front', back', rfl, hcovers⟩ := ih hrest hnext
      exact ⟨front ++ front', back', (List.append_assoc _ _ _).symm, hcovers⟩

namespace Phrase

open Reading

/-- A reading that makes a single node, whose nodes meet the condition. -/
theorem surveyed_making {holds : Kind → List Shape → Prop} {reading : Reading} {kinds : KindSet}
    {kind : Kind} {field : Option Field} {children : List Shape}
    (hverdict : reading.verdict = .node)
    (hshapes : reading.shapes = [.node kind field children])
    (hkind : kinds.contains kind = true) (hholds : (Shape.node kind field children).All holds) :
    Surveyed holds [.making kinds field .vague] reading := by
  refine ⟨?_, _, List.mem_singleton_self _, hverdict, ?_, Prospect.holds_vague _⟩
  · rw [hshapes]
    exact ⟨hholds, trivial⟩
  · rw [Path.making, Pattern.fits_singleton, Pattern.Covers]
    exact ⟨kind, children, hshapes, hkind, Pattern.fits_any children⟩

/-- A phrase that can only make a node has made one, of a kind that was listed. -/
theorem Surveyed.exists_making {holds : Kind → List Shape → Prop} {reading : Reading}
    {kinds : KindSet} {field : Option Field}
    (h : Surveyed holds [.making kinds field .vague] reading) :
    ∃ kind children, reading.verdict = .node ∧ reading.shapes = [.node kind field children] ∧
      kinds.contains kind = true ∧ (Shape.node kind field children).All holds := by
  obtain ⟨hholds, path, hpath, hdescribes⟩ := h
  obtain rfl := List.mem_singleton.mp hpath
  have hparts := hdescribes.parts
  rw [Path.making, Pattern.fits_singleton, Pattern.Covers] at hparts
  obtain ⟨kind, children, hshapes, hkind, -⟩ := hparts
  rw [hshapes] at hholds
  exact ⟨kind, children, hdescribes.verdict, hshapes, hkind, hholds.1⟩

end Phrase

namespace Grammar

open Phrase Reading ParseState

def closing? : Kind → Option Closing
  | .literal => some ⟨.ofClass Kind.isLiteral, .empty⟩
  | .concatenatedString => some ⟨.single .string, .empty⟩
  | .nameRef | .ident => some ⟨.single .name, .empty⟩
  | .keywordExpr => some ⟨.ofList [.selfKw, .superKw, .defaultKw], .empty⟩
  | .parenExpr | .vectorLiteral | .sizeofExpr | .argumentList => some ⟨.single .rightParen, .empty⟩
  | .castExpr | .classCastExpr | .prefixExpr | .binaryExpr | .assignmentExpr | .conditionalExpr =>
    some ⟨.empty, .ofClass Kind.isExpression⟩
  | .postfixExpr => some ⟨.ofList [.plus2, .minus2], .empty⟩
  | .callExpr => some ⟨.empty, .single .argumentList⟩
  | .memberExpr | .scopeExpr => some ⟨.empty, .single .ident⟩
  | .indexExpr => some ⟨.single .rightBracket, .empty⟩
  | .newExpr => some ⟨.single .newKw, .single .argumentList⟩
  | _ => none

def Ends (kind : Kind) (children : List Shape) : Prop :=
  ∀ closing ∈ closing? kind, ∃ last ∈ children.getLast?, closing.Allows last

/-- Whether a node ends as its kind asks, as far as its children are described. The last token of a
sequence of strings is one that was seen before its turn came, which no description tells. -/
def isEnded (kind : Kind) (parts : List Pattern) : Bool :=
  match closing? kind, parts.getLast? with
  | none, _ => true
  | some closing, some (.token known _) =>
    known.kinds.isSubset closing.tokens && kind != .concatenatedString
  | some closing, some (.node kinds _ _) => kinds.isSubset closing.nodes
  | some _, _ => false

/-- What is computed of the patterns of a node holds of its children. -/
theorem ends_of_isEnded (kind : Kind) (parts : List Pattern) (children : List Shape)
    (h : isEnded kind parts = true) (hfits : Pattern.Fits parts children) :
    Ends kind children := by
  intro closing hclosing
  unfold isEnded at h
  split at h
  · next hnone =>
    rw [hnone] at hclosing
    cases hclosing
  · next known field hsome hlast =>
    obtain rfl := Option.some.inj (hsome.symm.trans hclosing)
    obtain ⟨front, back, rfl, hcovers⟩ := hfits.exists_back hlast
    rw [Pattern.Covers] at hcovers
    obtain ⟨token, rfl, hknown⟩ := hcovers
    refine ⟨.leaf token field, List.getLast?_concat, ?_⟩
    exact KindSet.contains_of_isSubset (Bool.and_eq_true_iff.mp h).1 hknown.kind
  · next kinds field below hsome hlast =>
    obtain rfl := Option.some.inj (hsome.symm.trans hclosing)
    obtain ⟨front, back, rfl, hcovers⟩ := hfits.exists_back hlast
    rw [Pattern.Covers] at hcovers
    obtain ⟨inner, children, rfl, hinner, -⟩ := hcovers
    exact ⟨.node inner field children, List.getLast?_concat,
      KindSet.contains_of_isSubset h hinner⟩
  · cases h

def operandEnds : KindSet :=
  .ofClass fun kind => kind.endsOperand || kind == .defaultKw || kind == .newKw

/-- What comes last is a token that can end an expression, or a node that ends so itself. -/
theorem closing?_closed {kind : Kind} {closing : Closing} (h : closing? kind = some closing) :
    closing.tokens.isSubset operandEnds = true ∧
      closing.nodes.isSubset (.ofClass fun inner => (closing? inner).isSome) = true := by
  have hall : (Kind.all.all fun kind => (closing? kind).all fun closing =>
      closing.tokens.isSubset operandEnds &&
        closing.nodes.isSubset (.ofClass fun inner => (closing? inner).isSome)) = true := by
    decide +kernel
  have hkind := List.all_eq_true.mp hall kind (Kind.mem_all kind)
  rw [h] at hkind
  exact Bool.and_eq_true_iff.mp hkind

theorem isSome_closing? {kind : Kind} (h : kind.isExpression = true) :
    (closing? kind).isSome = true := by
  have hall : (Kind.all.all fun kind => !kind.isExpression || (closing? kind).isSome) = true := by
    decide
  have hkind := List.all_eq_true.mp hall kind (Kind.mem_all kind)
  rw [h] at hkind
  exact hkind

mutual

/-- The last token of a node that ends in an operand can end an expression. -/
theorem exists_last_token : ∀ {kind : Kind} {field : Option Field} {children : List Shape},
    (Shape.node kind field children).All Ends → (closing? kind).isSome = true →
    ∃ token ∈ (Shape.tokensAll children).getLast?, operandEnds.contains token.kind = true
  | kind, _, children, h, hkind => by
    obtain ⟨closing, hclosing⟩ := Option.isSome_iff_exists.mp hkind
    obtain ⟨last, hlast, hallows⟩ := h.1 closing hclosing
    obtain ⟨htokens, hnodes⟩ := closing?_closed hclosing
    refine exists_last_tokenAll h.2 hlast ?_ ?_
    · rintro token field rfl
      exact KindSet.contains_of_isSubset htokens hallows
    · rintro inner field below rfl
      have hinner := KindSet.contains_of_isSubset hnodes hallows
      rwa [KindSet.contains_ofClass] at hinner

/-- So can the last token of shapes side by side, if the last of them ends so. -/
theorem exists_last_tokenAll : ∀ {shapes : List Shape} {last : Shape},
    Shape.AllOf Ends shapes → last ∈ shapes.getLast? →
    (∀ token field, last = .leaf token field → operandEnds.contains token.kind = true) →
    (∀ kind field below, last = .node kind field below → (closing? kind).isSome = true) →
    ∃ token ∈ (Shape.tokensAll shapes).getLast?, operandEnds.contains token.kind = true
  | [], _, _, hlast, _, _ => by cases hlast
  | [.leaf token field], _, _, hlast, hleaf, _ => by
    obtain rfl := Option.some.inj hlast
    exact ⟨token, by simp [Shape.tokensAll, Shape.tokens], hleaf token field rfl⟩
  | [.node kind field below], _, h, hlast, _, hnode => by
    obtain rfl := Option.some.inj hlast
    obtain ⟨token, htoken, hends⟩ := exists_last_token h.1 (hnode kind field below rfl)
    refine ⟨token, ?_, hends⟩
    simpa [Shape.tokensAll, Shape.tokens] using htoken
  | shape :: next :: rest, last, h, hlast, hleaf, hnode => by
    rw [List.getLast?_cons_cons] at hlast
    obtain ⟨token, htoken, hends⟩ := exists_last_tokenAll h.2 hlast hleaf hnode
    refine ⟨token, ?_, hends⟩
    rw [Shape.tokensAll, List.getLast?_append, Option.mem_def.mp htoken]
    rfl

end

variable {drawRule : Rule → ParseState → Reading}

def stringsMeet : Test :=
  .and .glued (.next .string)

theorem taken_string {state : ParseState} (h : state.kind = .string) (field : Option Field) :
    taken state field =
      { stay state .done with
        shapes := [.leaf state.current field]
        lexer := state.lexer.advance } := by
  refine if_neg ?_
  rw [h]
  exact nofun

theorem advance_of_stringsMeet {state : ParseState} (h : stringsMeet.holds state = true) :
    (state.moveTo state.lexer.advance).kind = .string := by
  have hnext := (Bool.and_eq_true_iff.mp h).2
  rw [holds_next, beq_iff_eq] at hnext
  exact hnext.symm

/-- Strings that are glued to each other are taken up to the last one. -/
theorem drawLoop_strings {state : ParseState} (h : state.kind = .string) (limit : Nat) :
    let strings := drawLoop (fun state => stringsMeet.holds state) (token.draw drawRule) state limit
    strings.lexer.current.kind = .string ∧ Shape.AllOf Ends strings.shapes := by
  induction limit generalizing state with
  | zero => exact ⟨h, trivial⟩
  | succ limit ih =>
    simp only [drawLoop]
    by_cases ht : stringsMeet.holds state = true
    · -- the next token was seen to be a string, too
      obtain ⟨hlast, hrest⟩ := ih (advance_of_stringsMeet ht)
      have htaken := taken_string h none
      rw [if_pos ht, token, draw, htaken, if_neg Verdict.noConfusion]
      exact ⟨hlast, Shape.allOf_append.mpr ⟨⟨trivial, trivial⟩, hrest⟩⟩
    · rw [if_neg ht]
      exact ⟨h, trivial⟩

/-- Strings that are glued to each other make a node that ends in a string. -/
theorem surveyed_concatenation {state : ParseState} (hstring : state.kind = .string)
    (hmeet : stringsMeet.holds state = true) :
    Surveyed Ends [.making (.ofClass Kind.isExpression) none .vague]
      (concatenation.draw drawRule state) := by
  let second := state.moveTo (taken state none).lexer
  let strings := drawLoop (fun state => stringsMeet.holds state) (token.draw drawRule) second
    second.rounds
  let final := second.moveTo strings.lexer
  have hdraw : concatenation.draw drawRule state = ((taken state none).andThen
      (strings.andThen ((taken final none).andThen
        (stay (final.moveTo (taken final none).lexer) (.chose .concatenatedString))))).close :=
    if_pos hmeet
  have hfirst := taken_string hstring none
  have hsecond : second.kind = .string := by
    rw [← advance_of_stringsMeet hmeet]
    simp only [second, hfirst]
  obtain ⟨hlast, hstrings⟩ := @drawLoop_strings drawRule second hsecond second.rounds
  have hfinal := @taken_string final hlast none
  have hshapes : (concatenation.draw drawRule state).shapes =
      [.node .concatenatedString none
        ((.leaf state.current none :: strings.shapes) ++ [.leaf final.current none])] := by
    rw [hdraw, close_of_chose rfl]
    simp [andThen, stay, hfirst, hfinal]
  refine surveyed_making ?_ hshapes (by decide) ⟨?_, ?_⟩
  · rw [hdraw, close_of_chose rfl]
  · intro closing hclosing
    obtain rfl := Option.some.inj hclosing
    refine ⟨_, List.getLast?_concat, ?_⟩
    rw [Closing.Allows, KindSet.contains_single, beq_iff_eq]
    exact hlast.symm
  · exact Shape.allOf_append.mpr ⟨⟨trivial, hstrings⟩, trivial, trivial⟩

def primaryApart : Clause :=
  .branch (.sees .string) (nodeOf .literal [token]) primary

/-- Whether strings stand side by side decides between two phrases, so an operand is read in one of
two ways. -/
theorem draw_primary (state : ParseState) :
    primary.draw drawRule state =
      if state.kind = .string ∧ stringsMeet.holds state = true then
        concatenation.draw drawRule state
      else primaryApart.draw drawRule state := by
  by_cases hstring : state.kind = .string
  · have hsees : (Test.sees .string).holds state = true := by
      rw [holds_sees, hstring, beq_self_eq_true]
    have hother : (Test.seesAny literalFirst).holds state = false := by
      have hkind : (state.lexer.ahead 0).kind = .string := hstring
      rw [Test.seesAny, Test.holds, hkind]
      decide
    have hprimary : primary.draw drawRule state = concatenation.draw drawRule state := by
      simp only [primary, cases, List.foldr_cons, draw, hother, hsees, Bool.false_eq_true, if_false,
        if_true]
    rw [hprimary]
    split
    · rfl
    · next h =>
      have hapart : stringsMeet.holds state ≠ true := fun hmeet => h ⟨hstring, hmeet⟩
      rw [primaryApart, draw, if_pos hsees]
      exact if_neg hapart
  · have hsees : (Test.sees .string).holds state ≠ true := by
      rw [holds_sees, Ne, beq_iff_eq]
      exact Ne.symm hstring
    rw [if_neg fun h => hstring h.1, primaryApart, draw, if_neg hsees]

/-- The node of an operand without operators ends as its kind asks. -/
theorem surveyed_primary (haccounts : ∀ rule, Accounts (drawRule rule))
    (hrules : RulesYield Ends yields drawRule) {state : ParseState}
    (hquiet : Quiet (primary.draw drawRule state)) :
    Surveyed Ends [.making (.ofClass Kind.isExpression) none .vague]
      (primary.draw drawRule state) := by
  rw [draw_primary] at hquiet ⊢
  split at hquiet
  · next h =>
    rw [if_pos h]
    exact surveyed_concatenation h.1 h.2
  · next h =>
    rw [if_neg h]
    exact (isSurveyed ends_of_isEnded haccounts hrules primaryApart).of_conforms
      (by decide +kernel) hquiet

def suffixFirst : Test :=
  .seesAny [.leftParen, .leftBracket, .dot, .colon2, .plus2, .minus2]

/-- The nodes around an operand end as their kinds ask. -/
theorem surveyed_suffixed (haccounts : ∀ rule, Accounts (drawRule rule))
    (hrules : RulesYield Ends yields drawRule) {state : ParseState}
    (hquiet : Quiet (suffixed.draw drawRule state)) :
    Surveyed Ends [.making (.ofClass Kind.isExpression) none .vague]
      (suffixed.draw drawRule state) := by
  rw [suffixed] at hquiet ⊢
  obtain ⟨kind, children, hverdict, hshapes, hkind, hends⟩ :=
    (surveyed_primary haccounts hrules (quiet_of_chain hquiet)).exists_making
  let fine : Lexer → Shape → Prop := fun _ shape =>
    ∃ kind children, shape = .node kind none children ∧
      (KindSet.ofClass Kind.isExpression).contains kind = true ∧ shape.All Ends
  have htail : (suffixTail.survey isEnded yields (Prospect.vague.assume suffixFirst true)).any
      (fun paths => paths.all fun path => path.meets isEnded [.any] &&
        path.chosen.isSubset (.ofClass Kind.isExpression)) = true := by
    decide +kernel
  rw [Option.any_eq_true] at htail
  obtain ⟨paths, hsurvey, hall⟩ := htail
  have hround : ∀ state shape kind, fine state.lexer shape → suffixFirst.holds state = true →
      Quiet (suffixTail.draw drawRule state) →
      (suffixTail.draw drawRule state).verdict = .chose kind →
      fine (suffixTail.draw drawRule state).lexer (.node kind none
        (shape.withField (suffixSlot state.kind) :: (suffixTail.draw drawRule state).shapes)) := by
    rintro state shape kind ⟨inner, below, rfl, -, hshape⟩ htest htail hchose
    obtain ⟨hbelow, path, hpath, hdescribes⟩ :=
      isSurveyed ends_of_isEnded haccounts hrules suffixTail hsurvey
        ((Prospect.holds_vague state.current).assume htest) htail
    have hsettled : path.verdict = .chose kind := hdescribes.verdict.symm.trans hchose
    obtain ⟨hmeets, hchosen⟩ := Bool.and_eq_true_iff.mp (List.all_eq_true.mp hall path hpath)
    simp only [Path.meets, Path.chosen, hsettled] at hmeets hchosen
    refine ⟨kind, _, rfl, KindSet.contains_of_isSubset hchosen (by simp), ?_, ?_, hbelow⟩
    · exact ends_of_isEnded _ _ _ hmeets ((Pattern.fits_any [_]).append hdescribes.parts)
    · exact (Shape.all_withField _ _).mpr hshape
  obtain ⟨last, hnode, hlast, ⟨kind, children, rfl, hkind, hends⟩, -⟩ :=
    chain_induction fine hquiet hverdict hshapes ⟨kind, children, rfl, hkind, hends⟩ hround
  exact surveyed_making hnode hlast hkind hends

/-- All rules but the one that takes strings make nodes that end as their kinds ask. -/
theorem conforms_isEnded {rule : Rule} (h : rule ≠ .suffixed) :
    (grammar rule).conforms isEnded yields (yields rule).1 (yields rule).2 = true := by
  cases rule with
  | suffixed => exact absurd rfl h
  | expression least => cases least <;> decide +kernel
  | _ => decide +kernel

/-- Every rule makes nodes that end as their kinds do, whatever the budget. -/
theorem rulesYield_ends (budget : Nat) :
    RulesYield Ends yields (Phrase.drawRule grammar budget) := by
  induction budget with
  | zero => exact fun rule state hquiet => absurd hquiet.kept Bool.noConfusion
  | succ budget ih =>
    intro rule state hquiet
    have haccounts := accounts_drawRule grammar budget
    by_cases h : rule = .suffixed
    · subst h
      exact surveyed_suffixed haccounts ih hquiet
    · exact (isSurveyed ends_of_isEnded haccounts ih (grammar rule)).of_conforms
        (conforms_isEnded h) hquiet

/-- All nodes of a file without reports end as their kinds ask. -/
theorem ends_fileShape {text : String} {limit : Nat}
    (h : (fileReading text limit).reports = []) : (fileShape text limit).All Ends := by
  have hquiet : Quiet (fileReading text limit) := ⟨(covers_fileReading text limit).keeps, h⟩
  have hpaths : (fileItems.survey isEnded yields .vague).isSome = true := by
    decide +kernel
  obtain ⟨paths, hsurvey⟩ := Option.isSome_iff_exists.mp hpaths
  obtain ⟨hmeets, -⟩ :=
    isSurveyed ends_of_isEnded (accounts_drawRule grammar _) (rulesYield_ends (ruleBudget limit))
      fileItems hsurvey (Prospect.holds_vague _) hquiet
  exact ⟨nofun, Shape.allOf_append.mpr ⟨hmeets, trivial, trivial⟩⟩

end Grammar

end ScriptTree

import ScriptTree.Proofs.Grammar.Alike
import ScriptTree.Proofs.Lexer.Case
import ScriptTree.Proofs.Tree.Alike

/-!
Letter case does not count. Texts that differ in the case of ASCII letters only have the same tokens
at the same places, with the same layout and the same errors. As long as they do not mention states,
they have the same trees and the same reports as well. In state lines case counts: frames are
capitals.
-/

namespace ScriptTree

open Text Grammar

/-- Tokens that agree up to letter case agree in all but their texts. -/
theorem Token.eq_of_lower {a b : Token} (h : b.lower = a.lower) :
    b.leading = a.leading ∧ b.kind = a.kind ∧ b.span = a.span ∧ b.trailing = a.trailing ∧
      b.error = a.error := by
  obtain ⟨hleading, hkind, hspan, -, htrailing, herror⟩ := Token.mk.inj h
  exact ⟨hleading, hkind, hspan, htrailing, herror⟩

structure Token.Recases (a b : Token) : Prop where
  leading : b.leading = a.leading
  kind : b.kind = a.kind
  span : b.span = a.span
  text : sameWord b.text a.text = true
  trailing : b.trailing = a.trailing
  error : b.error = a.error

theorem Token.recases_of_lower {a b : Token} (h : b.lower = a.lower) : a.Recases b := by
  obtain ⟨hleading, hkind, hspan, htrailing, herror⟩ := Token.eq_of_lower h
  have htext : Text.lower b.text = Text.lower a.text := congrArg Token.text h
  exact ⟨hleading, hkind, hspan, beq_iff_eq.mpr htext, htrailing, herror⟩

/-- The tokens of a text with letters in another case are the same at the same places, wherever the
letters stand: in names, numbers, literals or comments. -/
theorem tokenize_recased {text text' : String} (hcase : lower text' = lower text) :
    List.Forall₂ Token.Recases (tokenize text) (tokenize text') := by
  have htokens : (tokenize text).map Token.lower = (tokenize text').map Token.lower := by
    rw [← tokenize_lower, ← tokenize_lower, hcase]
  rw [← List.forall₂_eq_eq_eq, List.forall₂_map_left_iff, List.forall₂_map_right_iff] at htokens
  exact htokens.imp fun a b hab => Token.recases_of_lower hab.symm

/-- Letters of either case in an include directive, a string, a comment that is left open, and
numbers with the mark of a base, an exponent and a suffix. -/
theorem tokenize_include_recased :
    (tokenize "#Include \"aB\" 0xFf 1E5uL CLASS /*X").map (·.kind) =
        [.includeKw, .string, .intNumber, .floatNumber, .classKw, .eof] ∧
      List.Forall₂ Token.Recases (tokenize "#Include \"aB\" 0xFf 1E5uL CLASS /*X")
        (tokenize "#INCLUDE \"Ab\" 0XfF 1e5Ul Class /*x") :=
  ⟨by decide +kernel, tokenize_recased (by decide)⟩

def recasing {text : String} (text' : String) (hfree : ¬ Mentions text "states") :
    Likeness text text' where
  lexer a b := a.Reached text ∧ b.Reached text' ∧ b.lower = a.lower
  token a b := b.lower = a.lower
  place a b := b = a
  verbatim := False
  reached := fun h => ⟨h.1, h.2.1⟩
  stateless := fun h => h.1.kind_ne_statesKw hfree
  advance := by
    rintro a b ⟨ha, hb, hlower⟩
    refine ⟨ha.reads (.take (.refl _)), hb.reads (.take (.refl _)), ?_⟩
    rw [← Lexer.advance_lower, hlower, Lexer.advance_lower]
  angle := by
    rintro a b ⟨ha, hb, hlower⟩
    refine ⟨ha.reads (.relex _ (.refl _)), hb.reads (.relex _ (.refl _)), ?_⟩
    rw [← Lexer.angle_lower, hlower, Lexer.angle_lower]
  current := fun h => congrArg Lexer.current h.2.2
  kind := fun h => (Token.eq_of_lower h).2.1
  glued := fun h => by rw [(Token.eq_of_lower h).2.2.2.1]
  word := fun h => congrArg Token.text h
  spelling := fun _ hv => hv.elim
  span := fun h => (Token.eq_of_lower h).2.2.1
  error := by
    intro a b h
    rw [(Token.eq_of_lower h).2.2.2.2]
    cases a.error with
    | none => exact .none
    | some error => exact .some ⟨rfl, rfl⟩
  cleared := fun h => congrArg Token.cleared h
  ordered := by
    rintro a _ c _ rfl rfl
    exact Iff.rfl

theorem utf8ByteSize_eq_of_lower {text text' : String} (h : lower text' = lower text) :
    text'.utf8ByteSize = text.utf8ByteSize := by
  have hsmall : small text'.toList = small text.toList := String.ofList_injective h
  rw [utf8ByteSize_eq_byteCount, utf8ByteSize_eq_byteCount, ← byteCount_small, hsmall,
    byteCount_small]

/-- The tree of a text with letters in another case is the same but for the text that it holds, and
the same things are reported at the same places. -/
theorem parse_recased {text text' : String} (hcase : lower text' = lower text)
    (hfree : ¬ Mentions text "states") (hsize : text.utf8ByteSize < UInt32.size) (limit : Nat) :
    ∃ parse parse', parseWith text limit = .ok parse ∧ parseWith text' limit = .ok parse' ∧
      parse'.tree = { parse.tree with text := text' } ∧
      parse'.diagnostics.map (fun report => (report.kind, report.span)) =
        parse.diagnostics.map fun report => (report.kind, report.span) := by
  have hsize' : text'.utf8ByteSize < UInt32.size := by rwa [utf8ByteSize_eq_of_lower hcase]
  obtain ⟨tree, hparse, -⟩ := parseWith_eq hsize limit
  obtain ⟨tree', hparse', htext', -⟩ := parseWith_eq hsize' limit
  have hstart : (recasing text' hfree).lexer (.ofText text) (.ofText text') := by
    refine ⟨Lexer.reached_ofText text, Lexer.reached_ofText text', ?_⟩
    rw [← Lexer.ofText_lower, hcase, Lexer.ofText_lower]
  refine ⟨_, _, hparse, hparse', ?_, ?_⟩
  · -- both trees are built by the same steps
    have hsteps : (fileShape text' limit).steps = (fileShape text limit).steps := by
      have hview : Shape.Overlooks (recasing text' hfree).token id := by
        intro a b hab field
        obtain ⟨hleading, hkind, hspan, htrailing, -⟩ := Token.eq_of_lower hab
        rw [hspan, hkind, hleading, htrailing]
      simpa only [List.map_id] using (alike_fileShape hstart limit).map_steps hview
    have hbuild := assemble_of_parseWith hparse
    have hbuild' := assemble_of_parseWith hparse'
    rw [hsteps] at hbuild'
    have heq := Tree.eq_of_assemble hbuild hbuild'
    rwa [htext'] at heq
  · show (readFile text' limit).reports.map _ = (readFile text limit).reports.map _
    symm
    rw [← List.forall₂_eq_eq_eq, List.forall₂_map_left_iff, List.forall₂_map_right_iff]
    refine (alike_reports hstart limit).imp fun a b hab => ?_
    have hspan : b.span = a.span := hab.place
    rw [hab.kind, hspan]

/-- A class with letters in either case, and a field that lacks its semicolon. -/
theorem parse_class_recased : ∃ parse parse',
    parseWith "Class Foo{Int X}" 20 = .ok parse ∧ parseWith "CLASS foo{INT x}" 20 = .ok parse' ∧
      parse'.tree = { parse.tree with text := "CLASS foo{INT x}" } ∧
      parse'.diagnostics.map (fun report => (report.kind, report.span)) =
        parse.diagnostics.map fun report => (report.kind, report.span) :=
  parse_recased (by decide) (by decide +kernel) (by decide) 20

end ScriptTree

import ScriptTree.Proofs.Recovery.Confined
import ScriptTree.Proofs.Recovery.Watching

/-!
The heads of elements. Skipping goes by braces and semicolons alone: it ends with the first
semicolon or behind the first group of braces. What stands before that semicolon or that group is
the head of an element. Unless an element may go on behind its head, what is skipped comes to the
end of the head and the rules of the grammar can be followed up to there.
-/

namespace ScriptTree

inductive Ending where
  | semicolon
  | opening
  | closing
  deriving DecidableEq, Repr, Inhabited

namespace Ending

def kind : Ending → Kind
  | .semicolon => .semicolon
  | .opening => .leftBrace
  | .closing => .rightBrace

def barred : Ending → KindSet
  | .semicolon => .ofList [.forKw, .ifKw, .doKw]
  | .opening => .ofList [.ifKw, .doKw]
  | .closing => .empty

end Ending

inductive Tail where
  | nothing
  | values
  | statements
  deriving DecidableEq, Repr, Inhabited

namespace Tail

def barred (tail : Tail) (ending : Ending) : KindSet :=
  if tail = .statements then ending.barred else .empty

def watch (tail : Tail) (ending : Ending) : Watch where
  stop := ending.kind
  allowed := (KindSet.without .full (.ofList [.leftBrace, .rightBrace, .semicolon, .eof])).without
    (tail.barred ending)
  bars := tail != .nothing
  stop_not_allowed := by cases tail <;> cases ending <;> decide +kernel
  eof_not_allowed := by cases tail <;> cases ending <;> decide +kernel
  angles_allowed := by cases tail <;> cases ending <;> decide +kernel

theorem contains_allowed {tail : Tail} {ending : Ending} {kind : Kind}
    (hkind : kind ∉ [Kind.leftBrace, .rightBrace, .semicolon, .eof])
    (hbarred : (tail.barred ending).contains kind = false) :
    (tail.watch ending).allowed.contains kind = true := by
  have hstops := Bool.eq_false_iff.mpr (mt KindSet.contains_ofList.mp hkind)
  rw [watch, KindSet.contains_without, KindSet.contains_without, KindSet.contains_full, hstops,
    hbarred]
  rfl

end Tail

namespace Kind

def isOfHead (kind : Kind) : Bool :=
  kind != .semicolon && kind != .leftBrace

def head (kinds : List Kind) : List Kind :=
  kinds.takeWhile isOfHead

def ending (kinds : List Kind) : Ending :=
  match (kinds.dropWhile isOfHead).head? with
  | some .semicolon => .semicolon
  | some .leftBrace => .opening
  | _ => .closing

variable {tail : Tail} {kind : Kind} {kinds : List Kind}

def Spares (tail : Tail) (kinds : List Kind) : Prop :=
  (∀ kind ∈ head kinds, (tail.barred (ending kinds)).contains kind = false) ∧
    (tail ≠ .nothing → ending kinds = .opening → (head kinds).getLast? ≠ some .eq)

theorem spares_nothing (kinds : List Kind) : Spares .nothing kinds :=
  ⟨fun _ _ => KindSet.contains_empty _, fun h => absurd rfl h⟩

theorem head_cons (h : kind.isOfHead = true) : head (kind :: kinds) = kind :: head kinds := by
  rw [head, List.takeWhile_cons, if_pos h]
  rfl

theorem ending_cons (h : kind.isOfHead = true) : ending (kind :: kinds) = ending kinds := by
  simp only [ending, List.dropWhile_cons, if_pos h]

theorem Spares.of_cons (hkind : kind.isOfHead = true) (h : Spares tail (kind :: kinds)) :
    (tail.barred (ending kinds)).contains kind = false ∧ Spares tail kinds := by
  obtain ⟨hbarred, hbrace⟩ := h
  rw [head_cons hkind, ending_cons hkind] at hbarred hbrace
  rw [List.forall_mem_cons] at hbarred
  refine ⟨hbarred.1, hbarred.2, fun htail hopening hlast => hbrace htail hopening ?_⟩
  have hne : head kinds ≠ [] := by
    intro hnil
    rw [hnil] at hlast
    cases hlast
  rwa [List.getLast?_cons_of_ne_nil hne]

/-- Directly before the opening brace. -/
theorem Spares.brace (hkind : kind.isOfHead = true) (h : Spares tail (kind :: .leftBrace :: kinds))
    (htail : tail ≠ .nothing) : kind ≠ .eq := by
  rintro rfl
  refine h.2 htail ?_ ?_
  · rw [ending_cons hkind]
    rfl
  · rw [head_cons hkind]
    rfl

end Kind

/-- Behind a token, the lookahead starts at once. -/
theorem Lexer.Placed.advance_span_start {lexer : Lexer} (h : lexer.Placed) :
    lexer.advance.current.span.start = lexer.advance.start.offset := by
  have hlayout : (layout lexer.next).after = lexer.next := by
    rw [h.next_eq, layout_lex]
  show (layout lexer.next).after.offset = lexer.next.offset
  rw [hlayout]

namespace Skipping

variable {braces : Nat} {isFirst : Bool} {lexer last : Lexer} {tokens : List Token}

/-- What is skipped is read token by token. -/
theorem reads (h : Skipping braces isFirst lexer tokens last) : Lexer.Reads lexer tokens last := by
  have hcons {lexer last : Lexer} {tokens : List Token}
      (h : Lexer.Reads lexer.advance tokens last) :
      Lexer.Reads lexer (lexer.current :: tokens) last :=
    Lexer.Reads.trans (.take (.refl lexer)) h
  induction h with
  | ended _ => exact .refl _
  | before _ => exact .refl _
  | lone _ => exact .take (.refl _)
  | closed _ => exact .take (.refl _)
  | finished _ => exact .take (.refl _)
  | shut _ _ ih => exact hcons ih
  | opened _ _ ih => exact hcons ih
  | inside _ _ ih => exact hcons ih
  | other _ _ _ _ _ ih => exact hcons ih

theorem ne_nil (h : Skipping braces true lexer tokens last) (heof : lexer.current.kind ≠ .eof) :
    tokens ≠ [] := by
  rintro rfl
  cases h with
  | ended hended => exact heof hended

/-- Behind an opening brace, the first token that is skipped is that brace. -/
theorem eq_cons_of_leftBrace (h : Skipping braces isFirst lexer tokens last)
    (hkind : lexer.current.kind = .leftBrace) : ∃ rest, tokens = lexer.current :: rest := by
  cases h <;> simp_all

/-- What is skipped of an element comes to the end of the head, unless the text ends before. -/
theorem nears {tail : Tail} (h : Skipping braces isFirst lexer tokens last) (hbraces : braces = 0)
    (hplaced : lexer.Placed)
    (hfirst : isFirst = false → lexer.current.span.start = lexer.start.offset)
    (hspares : Kind.Spares tail (tokens.map (·.kind))) :
    last.current.kind = .eof ∨ ∃ offset ≤ last.start.offset,
      (tail.watch (Kind.ending (tokens.map (·.kind)))).Nears offset lexer := by
  induction h with
  | ended h => exact Or.inl h
  | before h => exact Or.inr ⟨_, Nat.le_of_eq (hfirst rfl), .stop h rfl⟩
  | lone h =>
    refine Or.inr ⟨_, hplaced.span_start.2, .stop ?_ rfl⟩
    rw [List.map_singleton, h]
    rfl
  | closed _ => cases hbraces
  | finished h =>
    refine Or.inr ⟨_, hplaced.span_start.2, .stop ?_ rfl⟩
    rw [List.map_singleton, h]
    rfl
  | shut _ _ _ => cases hbraces
  | inside _ _ _ => cases hbraces
  | @opened _ _ lexer last _ h more _ =>
    obtain ⟨chars, hpasses⟩ := (more.reads.tiled lexer.advance_placed).passes
    refine Or.inr ⟨_, Nat.le_trans hplaced.span_start.2 hpasses.offset_le, .stop ?_ rfl⟩
    rw [List.map_cons, h]
    rfl
  | @other _ _ lexer last tokens heof hleft hright hsemicolon more ih =>
    have hhead : lexer.current.kind.isOfHead = true := by simp [Kind.isOfHead, hleft, hsemicolon]
    rw [List.map_cons] at hspares ⊢
    obtain ⟨hbarred, hrest⟩ := hspares.of_cons hhead
    rw [Kind.ending_cons hhead]
    refine (ih hbraces lexer.advance_placed
      (fun _ => hplaced.advance_span_start) hrest).imp_right ?_
    rintro ⟨offset, hle, hnears⟩
    refine ⟨offset, hle, .step (Tail.contains_allowed ?_ hbarred) ?_ hnears⟩
    · simp [heof, hleft, hright, hsemicolon]
    · intro hbars hassigns hbrace
      obtain ⟨rest, rfl⟩ := more.eq_cons_of_leftBrace hbrace
      rw [List.map_cons, hbrace] at hspares
      exact hspares.brace hhead (by simpa [Tail.watch] using hbars) hassigns.1

end Skipping

namespace Grammar

open Phrase

/-- The rules that may be called on the way to the end of a head, and whether they may lead behind
it. The values in braces behind `=` do not end where the braces do. -/
def passages (tail : Tail) (ending : Ending) : Rule → Option Bool
  | .initializers => none
  | .declarator => if tail = .nothing then none else some false
  | .declaration | .member => if tail = .nothing then none else some true
  | .statement => if tail = .statements then some (ending != .closing) else none
  | .compound => some (ending != .closing)
  | _ => some false

/-- Every rule that may be called on the way heeds the end of the head, as the table says of it. -/
theorem keepsWatch_grammar (tail : Tail) (ending : Ending) (rule : Rule) (past : Bool)
    (h : passages tail ending rule = some past) :
    (grammar rule).keepsWatch (tail.watch ending) (passages tail ending) past = true := by
  cases rule with
  | initializers => cases h
  | expression least =>
    obtain rfl := Option.some.inj h
    cases tail <;> cases ending <;> cases least <;> decide +kernel
  | declarator | declaration | member =>
    obtain ⟨htail, hpast⟩ := Option.ite_none_left_eq_some.mp h
    obtain rfl := Option.some.inj hpast
    cases tail <;> cases ending <;> first | exact absurd rfl htail | decide +kernel
  | statement =>
    obtain ⟨rfl, hpast⟩ := Option.ite_none_right_eq_some.mp h
    obtain rfl := Option.some.inj hpast
    cases ending <;> decide +kernel
  | _ =>
    obtain rfl := Option.some.inj h
    cases tail <;> cases ending <;> decide +kernel

end Grammar

end ScriptTree

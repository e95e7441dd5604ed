import ScriptTree.Parser.State
import ScriptTree.Proofs.Lexer.Reading

/-!
Skipping a malformed element takes tokens one after the other, forgets what is wrong with them, and
never goes beyond the end of the text. What is skipped depends on the lexer only.
-/

namespace ScriptTree

def Token.cleared (token : Token) : Token :=
  { token with error := none }

@[simp] theorem Token.cleared_kind (token : Token) : token.cleared.kind = token.kind :=
  rfl

@[simp] theorem Token.cleared_cleared (token : Token) : token.cleared.cleared = token.cleared :=
  rfl

/-- Tokens lie where they lie, whatever is wrong with them. -/
theorem Tiled.of_cleared {a b : Cursor} {xs ys : List Token} (h : Tiled a ys b)
    (he : xs.map Token.cleared = ys.map Token.cleared) : Tiled a xs b := by
  induction h generalizing xs with
  | nil cursor =>
    obtain rfl : xs = [] := by simpa using he
    exact .nil cursor
  | @cons a b c token tokens first rest ih =>
    cases xs with
    | nil => simp at he
    | cons held more =>
      obtain ⟨hhead, htail⟩ := List.cons.inj he
      have hfills : token.cleared.Fills a b := first
      rw [← hhead] at hfills
      exact .cons hfills (ih htail)

structure Skips (lexer : Lexer) (tokens : List Token) (last : Lexer)
    (skip : ParseState → ParseState) : Prop where
  reads : Lexer.Reads lexer tokens last
  ne_eof : ∀ token ∈ tokens, token.kind ≠ .eof
  eq : ∀ state : ParseState, state.lexer = lexer → skip state =
    { state with
      lexer := last
      events := state.events ++ (tokens.map fun token => Event.token token.cleared none).toArray }

namespace Skips

open ParseState

theorem nothing (lexer : Lexer) : Skips lexer [] lexer id := by
  refine ⟨.refl lexer, by simp, ?_⟩
  rintro state rfl
  simp

theorem discard {lexer : Lexer} (h : lexer.current.kind ≠ .eof) :
    Skips lexer [lexer.current] lexer.advance ParseState.discard := by
  refine ⟨.take (.refl lexer), by simpa using h, ?_⟩
  rintro state rfl
  have hk : ¬ state.kind = .eof := h
  simp [ParseState.discard, hk, Token.cleared]

/-- Skipping goes on behind a token that was discarded. -/
theorem after_discard {lexer last : Lexer} {tokens : List Token} {skip : ParseState → ParseState}
    (h : lexer.current.kind ≠ .eof) (hs : Skips lexer.advance tokens last skip) :
    Skips lexer (lexer.current :: tokens) last (fun state => skip state.discard) := by
  have hd := discard h
  refine ⟨hd.reads.trans hs.reads, ?_, ?_⟩
  · intro token ht
    rcases List.mem_cons.mp ht with rfl | ht
    · exact h
    · exact hs.ne_eof token ht
  · intro state hl
    have he := hd.eq state hl
    rw [hs.eq state.discard (by rw [he])]
    rw [he]
    simp

theorem congr {lexer last : Lexer} {tokens : List Token} {skip skip' : ParseState → ParseState}
    (h : Skips lexer tokens last skip)
    (he : ∀ state : ParseState, state.lexer = lexer → skip' state = skip state) :
    Skips lexer tokens last skip' :=
  ⟨h.reads, h.ne_eof, fun state hl => (he state hl).trans (h.eq state hl)⟩

end Skips

namespace ParseState

/-- Away from the braces, semicolons and the end of the text, one more token is skipped. -/
theorem skipElement_other {state : ParseState} (braces : Nat) (isFirst : Bool) (limit : Nat)
    (he : state.kind ≠ .eof) (hr : state.kind ≠ .rightBrace) (hs : state.kind ≠ .semicolon) :
    state.skipElement braces isFirst (limit + 1) =
      state.discard.skipElement (if state.kind = .leftBrace then braces + 1 else braces) false
        limit := by
  conv => lhs; unfold skipElement
  split
  · contradiction
  · contradiction
  · contradiction
  · next hk => rw [if_pos hk]
  · next hk => rw [if_neg hk]

/-- What is skipped, and that it is something unless the text is at its end. -/
theorem skips_skipElement (lexer : Lexer) (braces : Nat) (isFirst : Bool) (limit : Nat) :
    ∃ tokens last, Skips lexer tokens last (skipElement braces isFirst · limit) ∧
      (isFirst = true → 0 < limit → lexer.current.kind ≠ .eof → tokens ≠ []) := by
  induction limit generalizing lexer braces isFirst with
  | zero => exact ⟨[], lexer, .nothing lexer, by simp⟩
  | succ limit ih =>
    by_cases he : lexer.current.kind = .eof
    · refine ⟨[], lexer, (Skips.nothing lexer).congr ?_, fun _ _ hne => absurd he hne⟩
      rintro state rfl
      have hk : state.kind = .eof := he
      simp [skipElement, hk]
    have hlast (hn : ∀ state : ParseState, state.lexer = lexer →
        state.skipElement braces isFirst (limit + 1) = state.discard) :
        ∃ tokens last, Skips lexer tokens last (skipElement braces isFirst · (limit + 1)) ∧
          (isFirst = true → 0 < limit + 1 → lexer.current.kind ≠ .eof → tokens ≠ []) :=
      ⟨[lexer.current], lexer.advance, (Skips.discard he).congr hn, by simp⟩
    have hmore (braces' : Nat) (hn : ∀ state : ParseState, state.lexer = lexer →
        state.skipElement braces isFirst (limit + 1) =
          state.discard.skipElement braces' false limit) :
        ∃ tokens last, Skips lexer tokens last (skipElement braces isFirst · (limit + 1)) ∧
          (isFirst = true → 0 < limit + 1 → lexer.current.kind ≠ .eof → tokens ≠ []) := by
      obtain ⟨tokens, last, hs, _⟩ := ih lexer.advance braces' false
      exact ⟨lexer.current :: tokens, last, (hs.after_discard he).congr hn, by simp⟩
    by_cases hr : lexer.current.kind = .rightBrace
    · have hk (state : ParseState) (hl : state.lexer = lexer) : state.kind = .rightBrace := by
        rw [← hr, ← hl]
        rfl
      match braces, isFirst with
      | 0, true => exact hlast fun state hl => by simp [skipElement, hk state hl]
      | 0, false =>
        refine ⟨[], lexer, (Skips.nothing lexer).congr fun state hl => ?_, by simp⟩
        simp [skipElement, hk state hl]
      | 1, _ => exact hlast fun state hl => by simp [skipElement, hk state hl]
      | braces + 2, _ =>
        exact hmore (braces + 1) fun state hl => by simp [skipElement, hk state hl]
    by_cases hs : lexer.current.kind = .semicolon
    · have hk (state : ParseState) (hl : state.lexer = lexer) : state.kind = .semicolon := by
        rw [← hs, ← hl]
        rfl
      by_cases hb : braces = 0
      · exact hlast fun state hl => by simp [skipElement, hk state hl, hb]
      · exact hmore braces fun state hl => by simp [skipElement, hk state hl, hb]
    · refine hmore (if lexer.current.kind = .leftBrace then braces + 1 else braces) ?_
      rintro state rfl
      exact skipElement_other braces isFirst limit he hr hs

end ParseState

end ScriptTree

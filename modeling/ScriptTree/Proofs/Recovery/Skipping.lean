import ScriptTree.Proofs.Progress

/-!
What is skipped of a malformed element, token by token. Skipping counts the braces that it has seen
opened, so what it takes closes no brace that it did not open, and it leaves none open unless the
text ends. The one exception is a closing brace where the element should start.
-/

namespace ScriptTree

/-- From a lexer on, with some braces open, these tokens are skipped up to another lexer. The flag
says that nothing has been skipped yet. -/
inductive Skipping : Nat → Bool → Lexer → List Token → Lexer → Prop where
  | ended {braces : Nat} {isFirst : Bool} {lexer : Lexer} (h : lexer.current.kind = .eof) :
      Skipping braces isFirst lexer [] lexer
  | before {lexer : Lexer} (h : lexer.current.kind = .rightBrace) :
      Skipping 0 false lexer [] lexer
  | lone {lexer : Lexer} (h : lexer.current.kind = .rightBrace) :
      Skipping 0 true lexer [lexer.current] lexer.advance
  | closed {isFirst : Bool} {lexer : Lexer} (h : lexer.current.kind = .rightBrace) :
      Skipping 1 isFirst lexer [lexer.current] lexer.advance
  | finished {isFirst : Bool} {lexer : Lexer} (h : lexer.current.kind = .semicolon) :
      Skipping 0 isFirst lexer [lexer.current] lexer.advance
  | shut {braces : Nat} {isFirst : Bool} {lexer last : Lexer} {tokens : List Token}
      (h : lexer.current.kind = .rightBrace)
      (more : Skipping (braces + 1) false lexer.advance tokens last) :
      Skipping (braces + 2) isFirst lexer (lexer.current :: tokens) last
  | opened {braces : Nat} {isFirst : Bool} {lexer last : Lexer} {tokens : List Token}
      (h : lexer.current.kind = .leftBrace)
      (more : Skipping (braces + 1) false lexer.advance tokens last) :
      Skipping braces isFirst lexer (lexer.current :: tokens) last
  | inside {braces : Nat} {isFirst : Bool} {lexer last : Lexer} {tokens : List Token}
      (h : lexer.current.kind = .semicolon)
      (more : Skipping (braces + 1) false lexer.advance tokens last) :
      Skipping (braces + 1) isFirst lexer (lexer.current :: tokens) last
  | other {braces : Nat} {isFirst : Bool} {lexer last : Lexer} {tokens : List Token}
      (heof : lexer.current.kind ≠ .eof) (hleft : lexer.current.kind ≠ .leftBrace)
      (hright : lexer.current.kind ≠ .rightBrace) (hsemicolon : lexer.current.kind ≠ .semicolon)
      (more : Skipping braces false lexer.advance tokens last) :
      Skipping braces isFirst lexer (lexer.current :: tokens) last

def Kind.Nests (opened : Nat) (kinds : List Kind) : Prop :=
  ∀ front, front <+: kinds → front.count .rightBrace ≤ opened + front.count .leftBrace

namespace Kind

theorem nests_nil (opened : Nat) : Nests opened [] := by
  intro front hfront
  rw [List.prefix_nil.mp hfront]
  simp

/-- The first kind may open or close a brace, and the rest goes on from there. -/
theorem nests_cons {opened opened' : Nat} {kind : Kind} {rest : List Kind}
    (hkind : [kind].count .rightBrace + opened' = opened + [kind].count .leftBrace)
    (h : Nests opened' rest) : Nests opened (kind :: rest) := by
  intro front hfront
  rcases List.prefix_cons_iff.mp hfront with rfl | ⟨front', rfl, hfront'⟩
  · simp
  · have hrest := h front' hfront'
    rw [← List.singleton_append, List.count_append, List.count_append]
    omega

end Kind

namespace Skipping

variable {braces : Nat} {isFirst : Bool} {lexer last : Lexer} {tokens : List Token}

/-- What is skipped is a closing brace alone, or it closes no brace that it did not open, and leaves
none open unless the text ends. -/
theorem nests (h : Skipping braces isFirst lexer tokens last) :
    isFirst = true ∧ tokens.map (·.kind) = [.rightBrace] ∨
      Kind.Nests braces (tokens.map (·.kind)) ∧
        ((tokens.map (·.kind)).count .rightBrace = braces + (tokens.map (·.kind)).count .leftBrace ∨
          last.current.kind = .eof) := by
  induction h with
  | ended h => exact Or.inr ⟨Kind.nests_nil _, Or.inr h⟩
  | before h => exact Or.inr ⟨Kind.nests_nil _, Or.inl rfl⟩
  | lone h => exact Or.inl ⟨rfl, by simp [h]⟩
  | closed h =>
    refine Or.inr ⟨Kind.nests_cons ?_ (Kind.nests_nil 0), Or.inl ?_⟩ <;> simp [h]
  | finished h =>
    refine Or.inr ⟨Kind.nests_cons ?_ (Kind.nests_nil 0), Or.inl ?_⟩ <;> simp [h]
  | shut h more ih =>
    obtain ⟨hnests, hcount⟩ := ih.resolve_left (by simp)
    refine Or.inr ⟨Kind.nests_cons ?_ hnests, hcount.imp_left fun hcount => ?_⟩
    · simp [h]
      omega
    · simp [h, hcount]
      omega
  | opened h more ih =>
    obtain ⟨hnests, hcount⟩ := ih.resolve_left (by simp)
    refine Or.inr ⟨Kind.nests_cons ?_ hnests, hcount.imp_left fun hcount => ?_⟩
    · simp [h]
    · simp [h, hcount]
      omega
  | inside h more ih =>
    obtain ⟨hnests, hcount⟩ := ih.resolve_left (by simp)
    refine Or.inr ⟨Kind.nests_cons ?_ hnests, hcount.imp_left fun hcount => ?_⟩
    · simp [h]
    · simp [h, hcount]
  | other heof hleft hright hsemicolon more ih =>
    obtain ⟨hnests, hcount⟩ := ih.resolve_left (by simp)
    refine Or.inr ⟨Kind.nests_cons ?_ hnests, hcount.imp_left fun hcount => ?_⟩
    · simp [hleft, hright]
    · simpa [hleft, hright] using hcount

end Skipping

namespace ParseState

/-- What is skipped of an element, where the bound leaves room for all of the text. -/
theorem skipping_skipElement {text : String} {lexer : Lexer} (h : lexer.Reached text) {limit : Nat}
    (hl : text.utf8ByteSize - lexer.start.offset < limit) (braces : Nat) (isFirst : Bool) :
    ∃ tokens last, Skips lexer tokens last (skipElement braces isFirst · limit) ∧
      Skipping braces isFirst lexer tokens last := by
  induction limit generalizing lexer braces isFirst with
  | zero => exact absurd hl (Nat.not_lt_zero _)
  | succ limit ih =>
    by_cases heof : lexer.current.kind = .eof
    · refine ⟨[], lexer, (Skips.nothing lexer).congr ?_, .ended heof⟩
      rintro state rfl
      have hk : state.kind = .eof := heof
      simp [skipElement, hk]
    obtain ⟨hadvance, hlt⟩ := h.advance_lt heof hl
    -- a token is skipped, and that is all or skipping goes on behind it
    have hdiscard := Skips.discard heof
    have hmore (braces' : Nat) := ih hadvance hlt braces' false
    by_cases hright : lexer.current.kind = .rightBrace
    · have hk (state : ParseState) (hs : state.lexer = lexer) : state.kind = .rightBrace := by
        rw [← hright, ← hs]
        rfl
      obtain _ | _ | braces := braces
      · cases isFirst with
        | true =>
          refine ⟨_, _, hdiscard.congr fun state hs => ?_, .lone hright⟩
          simp [skipElement, hk state hs]
        | false =>
          refine ⟨[], lexer, (Skips.nothing lexer).congr fun state hs => ?_, .before hright⟩
          simp [skipElement, hk state hs]
      · refine ⟨_, _, hdiscard.congr fun state hs => ?_, .closed hright⟩
        simp [skipElement, hk state hs]
      · obtain ⟨tokens, last, hskips, hrest⟩ := hmore (braces + 1)
        refine ⟨_, _, (hskips.after_discard heof).congr fun state hs => ?_, .shut hright hrest⟩
        simp [skipElement, hk state hs]
    by_cases hsemicolon : lexer.current.kind = .semicolon
    · have hk (state : ParseState) (hs : state.lexer = lexer) : state.kind = .semicolon := by
        rw [← hsemicolon, ← hs]
        rfl
      cases braces with
      | zero =>
        refine ⟨_, _, hdiscard.congr fun state hs => ?_, .finished hsemicolon⟩
        simp [skipElement, hk state hs]
      | succ braces =>
        obtain ⟨tokens, last, hskips, hrest⟩ := hmore (braces + 1)
        refine ⟨_, _, (hskips.after_discard heof).congr fun state hs => ?_,
          .inside hsemicolon hrest⟩
        simp [skipElement, hk state hs]
    by_cases hleft : lexer.current.kind = .leftBrace
    · obtain ⟨tokens, last, hskips, hrest⟩ := hmore (braces + 1)
      refine ⟨_, _, (hskips.after_discard heof).congr ?_, .opened hleft hrest⟩
      rintro state rfl
      rw [skipElement_other braces isFirst limit heof hright hsemicolon]
      exact congrArg (state.discard.skipElement · false limit) (if_pos hleft)
    · obtain ⟨tokens, last, hskips, hrest⟩ := hmore braces
      refine ⟨_, _, (hskips.after_discard heof).congr ?_,
        .other heof hleft hright hsemicolon hrest⟩
      rintro state rfl
      rw [skipElement_other braces isFirst limit heof hright hsemicolon]
      exact congrArg (state.discard.skipElement · false limit) (if_neg hleft)

end ParseState

end ScriptTree

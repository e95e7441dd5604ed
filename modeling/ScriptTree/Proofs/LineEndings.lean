import ScriptTree.Proofs.Lexer.Abreast
import ScriptTree.Proofs.Lexer.Carriage
import ScriptTree.Proofs.LexicalErrors

/-!
Line endings. A text without carriage returns and the same text with one in front of every line
break have tokens of the same kinds with the same errors, as far as no token has a line break in it.
A token that has one is a literal with a backslash at the end of a line. With a carriage return
behind the backslash it is left open there, although a line continuation between tokens may have
one.
-/

namespace ScriptTree

open Text

/-- The text with a carriage return in front of every line break. -/
def Text.withReturns (text : String) : String :=
  String.ofList (crlf text.toList)

def Token.outcome (token : Token) : Kind × Option LexFault :=
  (token.kind, token.error.map (·.fault))

structure Token.Agrees (a b : Token) : Prop where
  inner : '\n' ∉ a.text.toList
  outcome : b.outcome = a.outcome

/-- A token with a line break in it, and the one in its place. The token is a quoted literal, and
the one in its place is a literal of the same kind that is left open. -/
structure Token.IsCut (a b : Token) : Prop where
  crossed : '\n' ∈ a.text.toList
  quoted : a.kind.quote?.isSome = true
  kind : b.kind = a.kind
  opened : b.isLeftOpen = true
  reported : b.error ≠ none

/-- Tokens that come to the same up to the first one with a line break in it, which is cut. -/
inductive AgreeToBreak : List Token → List Token → Prop where
  | ended : AgreeToBreak [] []
  | token {a b : Token} {as bs : List Token} (first : a.Agrees b) (rest : AgreeToBreak as bs) :
      AgreeToBreak (a :: as) (b :: bs)
  | cut {a b : Token} {as bs : List Token} (first : a.IsCut b) : AgreeToBreak (a :: as) (b :: bs)

theorem AgreeToBreak.outcomes {tokens tokens' : List Token} (h : AgreeToBreak tokens tokens')
    (hinner : ∀ token ∈ tokens, '\n' ∉ token.text.toList) :
    tokens'.map Token.outcome = tokens.map Token.outcome := by
  induction h with
  | ended => rfl
  | token first rest ih =>
    rw [List.map_cons, List.map_cons, first.outcome,
      ih fun token hmem => hinner token (List.mem_cons_of_mem _ hmem)]
  | cut first => exact absurd first.crossed (hinner _ List.mem_cons_self)

/-- If nothing is wrong with a token that is cut, it comes to something else. -/
theorem Token.IsCut.outcome_ne {a b : Token} (h : a.IsCut b) (hsound : a.error = none) :
    b.outcome ≠ a.outcome := by
  intro hsame
  have hnone : b.error.map (·.fault) = a.error.map (·.fault) := congrArg Prod.snd hsame
  rw [hsound] at hnone
  exact h.reported (Option.map_eq_none_iff.mp hnone)

/-- Where nothing is wrong with the tokens, all of them come to the same only if none is cut. -/
theorem AgreeToBreak.inner_of_outcomes {tokens tokens' : List Token}
    (h : AgreeToBreak tokens tokens') (hsound : ∀ token ∈ tokens, token.error = none)
    (hsame : tokens'.map Token.outcome = tokens.map Token.outcome) :
    ∀ token ∈ tokens, '\n' ∉ token.text.toList := by
  induction h with
  | ended => exact fun _ hmem => absurd hmem List.not_mem_nil
  | token first rest ih =>
    rw [List.map_cons, List.map_cons, List.cons.injEq] at hsame
    have hrest := ih (fun token hmem => hsound token (List.mem_cons_of_mem _ hmem)) hsame.2
    exact List.forall_mem_cons.mpr ⟨first.inner, hrest⟩
  | cut first =>
    rw [List.map_cons, List.map_cons, List.cons.injEq] at hsame
    exact absurd hsame.1 (first.outcome_ne (hsound _ List.mem_cons_self))

/-- Layout is read from the front of the characters to come. -/
theorem notMem_layout {c : Char} {start : Cursor} (h : c ∉ start.rest) :
    c ∉ (layout start).after.rest := by
  obtain ⟨chars, hrest, -⟩ := (layout_laid start).passes
  rw [hrest] at h
  exact fun hmem => h (List.mem_append_right _ hmem)

namespace Lexer

/-- The error of a token is one of the layout behind it, of the token, or of the layout in front. -/
theorem Placed.outcome_eq {lexer : Lexer} (h : lexer.Placed) : lexer.current.outcome =
    (lexer.found.kind,
      (layout lexer.stop).fault? <|> lexer.found.fault <|> (layout lexer.start).fault?) := by
  have herror : lexer.current.error = ((layout lexer.stop).error <|>
      (lexer.found.fault.map (⟨·, lexer.current.span⟩)) <|> (layout lexer.start).error) := by
    rw [h.span_eq, h.current_eq]
    rfl
  rw [Token.outcome, h.kind_eq, herror, Layout.fault?, Layout.fault?]
  refine congrArg (Prod.mk _) ?_
  cases (layout lexer.stop).error with
  | some error => rfl
  | none => cases lexer.found.fault <;> rfl

/-- A literal that is left open has an error, its own or that of a comment behind it. -/
theorem Placed.error_ne_none {lexer : Lexer} (h : lexer.Placed)
    (hopen : lexer.found.fault.isSome = true) : lexer.current.error ≠ none := by
  intro hnone
  obtain ⟨fault, hfault⟩ := Option.isSome_iff_exists.mp hopen
  have hboth := congrArg Prod.snd h.outcome_eq
  rw [Token.outcome, hnone, hfault] at hboth
  cases hback : (layout lexer.stop).fault? with
  | some error =>
    rw [hback] at hboth
    cases hboth
  | none =>
    rw [hback] at hboth
    cases hboth

structure InStep (lexer lexer' : Lexer) : Prop where
  placed : lexer.Placed
  placed' : lexer'.Placed
  mode : lexer.mode = .plain
  mode' : lexer'.mode = .plain
  preceding : lexer'.preceding = lexer.preceding
  clean : '\r' ∉ lexer.start.rest
  rest : lexer'.start.rest = crlf lexer.start.rest

variable {lexer lexer' : Lexer}

theorem inStep_place {start start' : Cursor} (preceding : Kind) (hclean : '\r' ∉ start.rest)
    (hrest : start'.rest = crlf start.rest) :
    (place start .plain preceding).InStep (place start' .plain preceding) :=
  ⟨place_placed _ _ _, place_placed _ _ _, rfl, rfl, rfl, hclean, hrest⟩

theorem InStep.toScan_eq (h : lexer.InStep lexer') : lexer'.toScan = crlf lexer.toScan :=
  (layout_inStep lexer.start h.clean lexer'.start (Or.inl h.rest)).rest

/-- The same is found, or a literal that is cut. -/
theorem InStep.found (h : lexer.InStep lexer') :
    Scan.InStep lexer.toScan lexer.found lexer'.found := by
  have hbreak : lexer.toScan.head? ≠ some '\n' := by
    intro hhead
    obtain ⟨tail, htail⟩ := List.head?_eq_some_iff.mp hhead
    have hnone : stretch? lexer.toScan = none := stretch?_layout lexer.start
    rw [htail] at hnone
    cases hnone
  rw [Lexer.found, Lexer.found, h.mode, h.mode', h.preceding, h.toScan_eq]
  exact Scan.plain_inStep lexer.preceding hbreak

/-- Lexers in step have tokens that agree and go on in step, or the token of the first one is cut.
-/
theorem InStep.step (h : lexer.InStep lexer') :
    (lexer.current.Agrees lexer'.current ∧ lexer.advance.InStep lexer'.advance) ∨
      lexer.current.IsCut lexer'.current := by
  have hfront := layout_inStep lexer.start h.clean lexer'.start (Or.inl h.rest)
  have hcurrent (kind : lexer'.found.kind = lexer.found.kind) :
      lexer'.current.kind = lexer.current.kind := by
    rw [h.placed.kind_eq, h.placed'.kind_eq, kind]
  cases h.found with
  | cut kind quoted crossed opened =>
    refine Or.inr ⟨?_, ?_, hcurrent kind, ?_, h.placed'.error_ne_none opened⟩
    · rwa [h.placed.text_eq]
    · rwa [h.placed.kind_eq]
    · rwa [Token.isLeftOpen, h.placed'.fault?_eq]
  | whole kind inner fault behind =>
    have hstop : lexer'.stop.rest = lexer'.toScan.drop lexer'.found.size := rfl
    have hclean : '\r' ∉ lexer.stop.rest :=
      fun hmem => notMem_layout h.clean (List.mem_of_mem_drop hmem)
    -- behind the token a carriage return may have been read already, and layout makes up for it
    have hback : (layout lexer.stop).InStep (layout lexer'.stop) := by
      refine layout_inStep lexer.stop hclean lexer'.stop ?_
      rw [hstop, h.toScan_eq]
      exact behind
    refine Or.inl ⟨⟨?_, ?_⟩, advance_placed _, advance_placed _, rfl, rfl, hcurrent kind, ?_, ?_⟩
    · rwa [h.placed.text_eq]
    · rw [h.placed.outcome_eq, h.placed'.outcome_eq, kind, fault, hback.fault, hfront.fault]
    · rw [advance_start, h.placed.next_eq_after]
      exact notMem_layout hclean
    · rw [advance_start, advance_start, h.placed.next_eq_after, h.placed'.next_eq_after]
      exact hback.rest

/-- Lexers in step collect tokens that agree up to the first one that is cut. -/
theorem InStep.collect {limit limit' : Nat} (h : lexer.InStep lexer')
    (hlimit : lexer.start.rest.length < limit) (hlimit' : lexer'.start.rest.length < limit') :
    AgreeToBreak (lexer.collect limit) (lexer'.collect limit') := by
  -- the bounds differ, but each is above what its lexer has left to read
  induction limit generalizing limit' lexer lexer' with
  | zero => omega
  | succ limit ih =>
    obtain ⟨limit', rfl⟩ := Nat.exists_eq_add_one_of_ne_zero (Nat.ne_zero_of_lt hlimit')
    rw [collect_succ, collect_succ]
    rcases h.step with ⟨hagrees, hadvance⟩ | hcut
    · refine .token hagrees ?_
      have hkind : lexer'.current.kind = lexer.current.kind := congrArg Prod.fst hagrees.outcome
      rw [hkind]
      split
      · exact .ended
      next hfull =>
      have hfull' : lexer'.current.kind ≠ .eof := by rwa [hkind]
      exact ih hadvance (Nat.lt_of_lt_of_le (h.placed.length_lt hfull) (Nat.le_of_lt_succ hlimit))
        (Nat.lt_of_lt_of_le (h.placed'.length_lt hfull') (Nat.le_of_lt_succ hlimit'))
    · exact .cut hcut

end Lexer

/-- A carriage return in front of every line break makes no difference to the kinds of the tokens of
a text and to their errors, up to the first token with a line break in it. So it makes none at all
to a text in which no token has a line break, and if nothing is wrong with a text, only to such a
text. -/
theorem tokenize_withReturns {text : String} (h : '\r' ∉ text.toList) :
    AgreeToBreak (tokenize text) (tokenize (withReturns text)) ∧
      ((∀ token ∈ tokenize text, '\n' ∉ token.text.toList) →
        (tokenize (withReturns text)).map Token.outcome = (tokenize text).map Token.outcome) ∧
      ((∀ token ∈ tokenize text, token.error = none) →
        (tokenize (withReturns text)).map Token.outcome = (tokenize text).map Token.outcome →
        ∀ token ∈ tokenize text, '\n' ∉ token.text.toList) := by
  have hrest : (Cursor.ofText (withReturns text)).rest = crlf (Cursor.ofText text).rest := by
    rw [Cursor.ofText, Cursor.ofText, withReturns, String.toList_ofList]
  have hstep : (Lexer.ofText text).InStep (.ofText (withReturns text)) :=
    Lexer.inStep_place .eof h hrest
  have hlength (text : String) : (Lexer.ofText text).start.rest.length < text.length + 1 :=
    Nat.lt_succ_of_le (Nat.le_of_eq String.length_toList)
  have hagree : AgreeToBreak (tokenize text) (tokenize (withReturns text)) :=
    hstep.collect (hlength text) (hlength (withReturns text))
  exact ⟨hagree, hagree.outcomes, hagree.inner_of_outcomes⟩

/-- White space, comments and a line continuation at the ends of lines, and a literal left open. -/
theorem tokenize_withReturns_comments :
    let text := "( // b\n\\\n /* c\n */ 1.\n\"d\n"
    '\r' ∉ text.toList ∧ (∀ token ∈ tokenize text, '\n' ∉ token.text.toList) ∧
      (tokenize (withReturns text)).map Token.outcome = (tokenize text).map Token.outcome := by
  intro text
  have hclean : '\r' ∉ text.toList := by decide
  have hinner : ∀ token ∈ tokenize text, '\n' ∉ token.text.toList := by decide +kernel
  exact ⟨hclean, hinner, (tokenize_withReturns hclean).2.1 hinner⟩

/-- A backslash takes a line break along into a string, but not a carriage return and a line break.
-/
theorem tokenize_escapedBreak :
    let text := "\"a\\\nb\""
    '\r' ∉ text.toList ∧ withReturns text = "\"a\\\r\nb\"" ∧
      (tokenize text).map Token.outcome = [(.string, none), (.eof, none)] ∧
      (tokenize (withReturns text)).map Token.outcome =
        [(.string, some .unterminatedString), (.name, none), (.string, some .unterminatedString),
          (.eof, none)] := by
  decide +kernel

end ScriptTree

import ScriptTree.Proofs.Recovery.StateLines

/-!
How far the error node of a skipped element reaches. It ends with the head of the element, although
an element may go on there and fail later. Unless the head has one of a few kinds of tokens, the
element complains in it. A line of a state block does so unless its frames slip.
-/

namespace ScriptTree

/-- What is skipped of an element, in a text. -/
theorem Reading.skipping_skipped {text : String} {state : ParseState} (h : state.StandsIn text)
    (dropped : Reading) :
    ∃ tokens, Skipping 0 true state.lexer tokens (skipped state dropped).lexer ∧
      Shape.tokensAll (skipped state dropped).shapes = tokens.map Token.cleared := by
  have hroom : text.utf8ByteSize - state.lexer.start.offset < state.rounds := by
    rw [← h.size]
    exact Nat.lt_succ_self _
  obtain ⟨tokens, last, hskips, hskipping⟩ := ParseState.skipping_skipElement h.reached hroom 0 true
  rw [skipped_eq state dropped hskips]
  exact ⟨tokens, hskipping, by simp [Shape.tokens]⟩

namespace Grammar

open Phrase Reading

/-- An element of a repeated context leads to the end of its head. The head of a state line does so
if its first two words are in step with ordinary reading. -/
structure IsStraight (element : Clause) (lexer : Lexer) (kinds : List Kind) : Prop where
  keywords : element = .call .statement →
    ∀ kind ∈ Kind.head kinds, (Kind.ending kinds).barred.contains kind = false
  values : element ∈ [item, .call .member, .call .statement] →
    Kind.ending kinds = .opening → (Kind.head kinds).getLast? ≠ some .eq
  words : element = stateItem → ¬ lexer.Slips

/-- With nothing that it may go on with, an element can be followed to the end of its head. -/
def Follows (element : Clause) (tail : Tail) : Prop :=
  ∀ ending, (element.heed (tail.watch ending) (passages tail ending)
    (tail.watch ending).vague).isSome = true

/-- All elements but the lines of a state block can be followed to the end of a straight head. -/
theorem exists_follows {element : Clause} (he : element ∈ repeated) (hne : element ≠ stateItem)
    {lexer : Lexer} {kinds : List Kind} (h : IsStraight element lexer kinds) :
    ∃ tail, Follows element tail ∧ Kind.Spares tail kinds := by
  simp only [repeated, List.mem_cons, List.not_mem_nil, or_false] at he
  have hvalues (hmem : element ∈ [item, .call .member, .call .statement]) :
      Kind.Spares .values kinds :=
    ⟨fun _ _ => KindSet.contains_empty _, fun _ => h.values hmem⟩
  rcases he with rfl | rfl | rfl | rfl | rfl | rfl
  · refine ⟨.values, fun ending => ?_, hvalues (by simp)⟩
    cases ending <;> decide +kernel
  · refine ⟨.values, fun ending => ?_, hvalues (by simp)⟩
    cases ending <;> decide +kernel
  · refine ⟨.statements, fun ending => ?_, h.keywords rfl, fun _ => h.values (by simp)⟩
    cases ending <;> decide +kernel
  · exact absurd rfl hne
  · refine ⟨.nothing, fun ending => ?_, Kind.spares_nothing kinds⟩
    cases ending <;> decide +kernel
  · refine ⟨.nothing, fun ending => ?_, Kind.spares_nothing kinds⟩
    cases ending <;> decide +kernel

/-- An element of a repeated context was tried in a text and has failed. -/
structure Failed (text : String) (element : Clause) (state : ParseState) (reading : Reading) :
    Prop where
  repeated : element ∈ repeated
  stands : state.StandsIn text
  ahead : state.kind ≠ .eof
  drawn : ∃ budget, reading = element.draw (drawRule grammar budget) state
  kept : reading.misused = false
  failures : reading.failures ≠ 0

namespace Failed

variable {text : String} {element : Clause} {state : ParseState} {reading : Reading} {tail : Tail}
  {ending : Ending} {offset : Nat}

/-- The first report is about the text from the element on. -/
theorem exists_report (h : Failed text element state reading) :
    ∃ report, reading.reports.head? = some report ∧
      state.lexer.start.offset ≤ report.span.start ∧ report.span.start ≤ text.utf8ByteSize := by
  obtain ⟨budget, rfl⟩ := h.drawn
  have hacc := accounts_drawRule grammar budget
  have hle := (Accounts.phrase hacc element state).failures_le
  have hseen := SeesAhead.phrase hacc (seesAhead_drawRule grammar budget) element state
  cases hreports : (element.draw (drawRule grammar budget) state).reports with
  | nil =>
    rw [hreports] at hle
    exact absurd (Nat.le_zero.mp hle) h.failures
  | cons report rest =>
    obtain ⟨token, hmeets, hspan⟩ := hseen.reports report (by simp [hreports])
    exact ⟨report, rfl, hspan ▸ h.stands.span_start hmeets⟩

/-- The first report is about the end of the head or what stands before it. -/
theorem report_le_of_follows (h : Failed text element state reading)
    (hfollows : Follows element tail)
    (hnears : (tail.watch ending).Nears offset state.lexer) :
    ∃ report, reading.reports.head? = some report ∧ report.span.start ≤ offset := by
  obtain ⟨budget, rfl⟩ := h.drawn
  exact complainsBy_of_heed (hfollows ending) (hnears.stands h.stands.reached.placed) budget h.kept
    h.failures

/-- Where the head is straight, the first report is about what is skipped. -/
theorem report_le_of_isStraight (h : Failed text element state reading)
    (hstraight : IsStraight element state.lexer
      ((Shape.tokensAll (skipped state reading).shapes).map (·.kind))) :
    ∃ report, reading.reports.head? = some report ∧
      report.span.start ≤ (skipped state reading).lexer.start.offset := by
  obtain ⟨tokens, hskipping, htokens⟩ := skipping_skipped h.stands reading
  have hkinds : (tokens.map Token.cleared).map (·.kind) = tokens.map (·.kind) := List.map_map
  rw [htokens, hkinds] at hstraight
  have hreached := h.stands.reached
  have hend (hended : (skipped state reading).lexer.current.kind = .eof) :
      ∃ report, reading.reports.head? = some report ∧
        report.span.start ≤ (skipped state reading).lexer.start.offset := by
    obtain ⟨report, hreport, -, hsize⟩ := h.exists_report
    refine ⟨report, hreport, ?_⟩
    rwa [hskipping.reads.offset_of_eof hreached (hskipping.ne_nil h.ahead) hended]
  by_cases hitem : element = stateItem
  · have hspares := Kind.spares_nothing (tokens.map (·.kind))
    rcases hskipping.nears rfl hreached.placed nofun hspares with hended | ⟨offset, hle, hnears⟩
    · exact hend hended
    · obtain ⟨budget, hdrawn⟩ := h.drawn
      subst hitem
      have hcomplains := complainsBy_stateItem hreached.placed hnears (hstraight.words rfl) budget
      obtain ⟨report, hreport, hbefore⟩ := (hdrawn ▸ hcomplains) h.kept h.failures
      exact ⟨report, hreport, Nat.le_trans hbefore hle⟩
  · obtain ⟨tail, hfollows, hspares⟩ := exists_follows h.repeated hitem hstraight
    rcases hskipping.nears rfl hreached.placed nofun hspares with hended | ⟨offset, hle, hnears⟩
    · exact hend hended
    · obtain ⟨report, hreport, hbefore⟩ := h.report_le_of_follows hfollows hnears
      exact ⟨report, hreport, Nat.le_trans hbefore hle⟩

end Failed

end Grammar

end ScriptTree

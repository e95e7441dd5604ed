import ScriptTree.Proofs.Lexer.Fault
import ScriptTree.Proofs.Lexer.Ordinary

/-!
Quoted literals, told from their characters. A literal is closed if it stands between two quotes
with nothing between them that would have ended it before. Reading takes exactly the literal if it
is closed, and stops at a line break or at the end of the text otherwise.
-/

namespace ScriptTree

namespace Text

/-- Whether characters can stand between quotes: neither the quote nor a line break is among them,
unless a backslash takes it along, and no backslash comes last. -/
def isQuotable (quote : Char) : List Char → Bool
  | [] => true
  | ['\\'] => false
  | '\\' :: _ :: rest => isQuotable quote rest
  | c :: rest => c != quote && c != '\n' && isQuotable quote rest

def isClosedBy (quote : Char) : List Char → Bool
  | [] => false
  | first :: rest =>
    first == quote && rest.getLast? == some quote && isQuotable quote rest.dropLast

theorem isQuotable_cons {quote c : Char} (hslash : c ≠ '\\') (rest : List Char) :
    isQuotable quote (c :: rest) = (c != quote && c != '\n' && isQuotable quote rest) := by
  rw [isQuotable]
  · exact fun h _ => hslash h
  · exact fun _ _ h _ => hslash h

/-- Without backslashes, quotes and line breaks anything can stand between quotes. -/
theorem isQuotable_of_forall {quote : Char} {body : List Char}
    (h : ∀ c ∈ body, c ≠ '\\' ∧ c ≠ quote ∧ c ≠ '\n') : isQuotable quote body = true := by
  induction body with
  | nil => rfl
  | cons c body ih =>
    obtain ⟨⟨hslash, hquote, hline⟩, hbody⟩ := List.forall_mem_cons.mp h
    simp [isQuotable_cons hslash, hquote, hline, ih hbody]

/-- A literal is closed if what stands between its quotes can stand there. -/
theorem isClosedBy_append (quote : Char) (body : List Char) :
    isClosedBy quote (quote :: (body ++ [quote])) = isQuotable quote body := by
  simp [isClosedBy]

theorem exists_of_isClosedBy {quote : Char} {chars : List Char}
    (h : isClosedBy quote (quote :: chars) = true) :
    ∃ body, chars = body ++ [quote] ∧ isQuotable quote body = true := by
  simp only [isClosedBy, Bool.and_eq_true, beq_iff_eq] at h
  obtain ⟨⟨-, hlast⟩, hbody⟩ := h
  obtain ⟨body, rfl⟩ := List.getLast?_eq_some_iff.mp hlast
  rw [List.dropLast_concat] at hbody
  exact ⟨body, rfl, hbody⟩

end Text

open Text

/-- What can stand between quotes is read up to the quote behind it. -/
theorem quotedRun_of_isQuotable {quote : Char} (hbreak : quote ≠ '\n') (hslash : quote ≠ '\\')
    {body : List Char} (h : isQuotable quote body = true) (rest : List Char) :
    quotedRun quote (body ++ quote :: rest) = ⟨body.length + 1, true⟩ := by
  fun_induction isQuotable quote body with
  | case1 =>
    rw [List.nil_append, quotedRun_cons _ hbreak hslash, if_pos (beq_self_eq_true quote)]
    rfl
  | case2 => cases h
  | case3 c body ih =>
    rw [List.cons_append, List.cons_append, quotedRun, ih h]
    simp only [QuotedRun.after, List.length_cons, QuotedRun.mk.injEq, and_true]
    omega
  | case4 c body hlast hescape ih =>
    simp only [Bool.and_eq_true, bne_iff_ne] at h
    obtain ⟨⟨hquote, hline⟩, hbody⟩ := h
    have hc : (c == quote) = false := beq_eq_false_iff_ne.mpr hquote
    rw [List.cons_append, quotedRun_cons _ hline (ne_backslash hlast hescape), hc, ih hbody]
    simp only [Bool.false_eq_true, if_false, QuotedRun.after, List.length_cons,
      QuotedRun.mk.injEq, and_true]
    omega

/-- A literal that is read up to its closing quote has nothing before it that ends a literal. -/
theorem exists_of_quotedRun_closed {quote : Char} {chars : List Char}
    (h : (quotedRun quote chars).closed = true) :
    ∃ body, chars.take (quotedRun quote chars).size = body ++ [quote] ∧
      isQuotable quote body = true := by
  fun_induction quotedRun quote chars with
  | case1 => cases h
  | case2 rest => cases h
  | case3 => cases h
  | case4 c rest ih =>
    obtain ⟨body, htake, hbody⟩ := ih h
    refine ⟨'\\' :: c :: body, ?_, hbody⟩
    have hsize : ((quotedRun quote rest).after 2).size = (quotedRun quote rest).size + 2 :=
      Nat.add_comm _ _
    rw [hsize, List.take_succ_cons, List.take_succ_cons, htake]
    rfl
  | case5 c rest hbreak hlast hescape hquote =>
    obtain rfl := beq_iff_eq.mp hquote
    exact ⟨[], rfl, rfl⟩
  | case6 c rest hbreak hlast hescape hquote ih =>
    obtain ⟨body, htake, hbody⟩ := ih h
    have hslash : c ≠ '\\' := ne_backslash hlast hescape
    have hsize : ((quotedRun quote rest).after 1).size = (quotedRun quote rest).size + 1 :=
      Nat.add_comm _ _
    refine ⟨c :: body, ?_, ?_⟩
    · rw [hsize, List.take_succ_cons, htake]
      rfl
    · have hother : c ≠ quote := fun heq => hquote (beq_iff_eq.mpr heq)
      have hline : c ≠ '\n' := hbreak
      rw [isQuotable_cons hslash, hbody]
      simp [hother, hline]

/-- A literal that is left open is read up to a line break or up to the end of the text. -/
theorem head?_of_quotedRun_open {quote : Char} {chars : List Char}
    (h : (quotedRun quote chars).closed = false) :
    chars.drop (quotedRun quote chars).size = [] ∨
      (chars.drop (quotedRun quote chars).size).head? = some '\n' := by
  have hdrop (run : QuotedRun) (count : Nat) : (run.after count).size = run.size + count :=
    Nat.add_comm _ _
  fun_induction quotedRun quote chars with
  | case1 => exact Or.inl rfl
  | case2 rest => exact Or.inr rfl
  | case3 => exact Or.inl rfl
  | case4 c rest ih =>
    rw [hdrop, List.drop_succ_cons, List.drop_succ_cons]
    exact ih h
  | case5 => cases h
  | case6 c rest hbreak hlast hescape hquote ih =>
    rw [hdrop, List.drop_succ_cons]
    exact ih h

/-- Reading closes a literal exactly if the characters that it takes are a closed literal. -/
theorem quotedRun_closed_eq {quote : Char} (hbreak : quote ≠ '\n') (hslash : quote ≠ '\\')
    (chars : List Char) : (quotedRun quote chars).closed =
      isClosedBy quote (quote :: chars.take (quotedRun quote chars).size) := by
  rw [Bool.eq_iff_iff]
  constructor
  · intro h
    obtain ⟨body, htake, hbody⟩ := exists_of_quotedRun_closed h
    rw [htake, isClosedBy_append]
    exact hbody
  · intro h
    obtain ⟨body, htake, hbody⟩ := exists_of_isClosedBy h
    -- the characters that were taken are read as before
    rw [← quotedRun_take, htake, quotedRun_of_isQuotable hbreak hslash hbody]

def Kind.quote? : Kind → Option (Char × LexFault)
  | .string => some ('"', .unterminatedString)
  | .nameLiteral => some ('\'', .unterminatedName)
  | _ => none

def Kind.faultOf (kind : Kind) (chars : List Char) : Option LexFault :=
  match kind.quote? with
  | none => none
  | some (quote, fault) => if isClosedBy quote chars then none else some fault

namespace Scan

theorem quoted_fault {quote : Char} (hbreak : quote ≠ '\n') (hslash : quote ≠ '\\')
    (rest : List Char) (kind : Kind) (fault : LexFault) :
    (quoted (quote :: rest) quote kind fault).fault =
      if isClosedBy quote ((quote :: rest).take (quoted (quote :: rest) quote kind fault).size) then
        none
      else some fault := by
  have hsize : (quoted (quote :: rest) quote kind fault).size = (quotedRun quote rest).size + 1 :=
    Nat.add_comm _ _
  rw [hsize, List.take_succ_cons, ← quotedRun_closed_eq hbreak hslash]
  rfl

variable {preceding : Kind} {chars : List Char} {found : Scan}

/-- The kinds of numbers, words and symbols are not those of quoted literals. -/
theorem quote?_of_measure (chars : List Char) : (Number.measure chars).2.quote? = none := by
  rcases Number.measure_kind chars with h | h
  · rw [h]
    rfl
  · rw [h]
    rfl

theorem quote?_of_word (chars : List Char) : (word chars).kind.quote? = none := by
  have hkeywords : ∀ kind ∈ keywords.map Prod.snd, kind.quote? = none := by decide
  rcases word_kind chars with h | h
  · rw [h]
    rfl
  · exact hkeywords _ h

theorem quote?_of_symbol (chars : List Char) : (symbol chars).kind.quote? = none := by
  have hoperators : ∀ kind ∈ operators.map Prod.snd, kind.quote? = none := by decide
  rcases symbol_kind chars with h | h
  · rw [h]
    rfl
  · exact hoperators _ h

theorem symbol_fault (chars : List Char) : (symbol chars).fault = none := by
  rw [symbol_eq]
  split
  · rfl
  · rfl

/-- What is wrong with an ordinary token can be told from its kind and its characters. -/
theorem Ordinary.fault_eq (h : Ordinary preceding chars found) :
    found.fault = found.kind.faultOf (chars.take found.size) := by
  have hsound {found : Scan} (hfault : found.fault = none) (hkind : found.kind.quote? = none) :
      found.fault = found.kind.faultOf (chars.take found.size) := by
    rw [hfault, Kind.faultOf, hkind]
  cases h with
  | ended => rfl
  | number starts => exact hsound rfl (quote?_of_measure chars)
  | word start => exact hsound rfl (quote?_of_word _)
  | string rest => exact quoted_fault (by decide) (by decide) rest _ _
  | name rest => exact quoted_fault (by decide) (by decide) rest _ _
  | directive directs => exact hsound rfl rfl
  | symbol noNumber => exact hsound (symbol_fault chars) (quote?_of_symbol chars)

/-- A literal is left open only where its line or the text ends. -/
theorem quoted_open {quote : Char} {rest : List Char} {kind : Kind} {fault : LexFault}
    (h : (quoted (quote :: rest) quote kind fault).fault ≠ none) :
    (quote :: rest).drop (quoted (quote :: rest) quote kind fault).size = [] ∨
      ((quote :: rest).drop (quoted (quote :: rest) quote kind fault).size).head? = some '\n' := by
  have hsize : (quoted (quote :: rest) quote kind fault).size = (quotedRun quote rest).size + 1 :=
    Nat.add_comm _ _
  have hopen : (quotedRun quote rest).closed = false := by
    cases hrun : (quotedRun quote rest).closed with
    | false => rfl
    | true =>
      refine absurd ?_ h
      exact if_pos hrun
  rw [hsize, List.drop_succ_cons]
  exact head?_of_quotedRun_open hopen

/-- An ordinary token that something is wrong with stops at a line break or at the end. -/
theorem Ordinary.stops (h : Ordinary preceding chars found) (hfault : found.fault ≠ none) :
    chars.drop found.size = [] ∨ (chars.drop found.size).head? = some '\n' := by
  cases h with
  | string rest => exact quoted_open hfault
  | name rest => exact quoted_open hfault
  | symbol noNumber => exact absurd (symbol_fault chars) hfault
  | ended => exact absurd rfl hfault
  | number starts => exact absurd rfl hfault
  | word start => exact absurd rfl hfault
  | directive directs => exact absurd rfl hfault

end Scan

/-- In every mode, what is wrong with a token can be told from its kind and its characters. -/
theorem scan_fault (mode : LexMode) (preceding : Kind) (chars : List Char) :
    (scan mode preceding chars).fault =
      (scan mode preceding chars).kind.faultOf (chars.take (scan mode preceding chars).size) := by
  rcases scan_cases mode preceding chars with h | h
  · obtain ⟨size, -, heq⟩ | ⟨size, -, heq⟩ | ⟨-, heq⟩ := Scan.special?_eq h
    all_goals
      rw [heq]
      rfl
  · exact h.fault_eq

/-- In every mode, a token that something is wrong with stops at a line break or at the end. -/
theorem scan_stops {mode : LexMode} {preceding : Kind} {chars : List Char}
    (h : (scan mode preceding chars).fault ≠ none) :
    chars.drop (scan mode preceding chars).size = [] ∨
      (chars.drop (scan mode preceding chars).size).head? = some '\n' := by
  rcases scan_cases mode preceding chars with hcase | hcase
  · obtain ⟨size, -, heq⟩ | ⟨size, -, heq⟩ | ⟨-, heq⟩ := Scan.special?_eq hcase
    all_goals
      rw [heq] at h
      exact absurd rfl h
  · exact hcase.stops h

end ScriptTree

import Mathlib.Data.List.Find
import ScriptTree.Proofs.Kind.Set
import ScriptTree.Proofs.Lexer.Ordinary
import ScriptTree.Proofs.Lexer.Standing

/-!
Maximal munch. A lexer takes as much of the text for a token as can belong to it: of the operators
that the text goes on with it takes the longest, of a word all characters of names, and the word is
a reserved one exactly if it is in the list of these as a whole. Only a character that starts no
token is taken alone.
-/

namespace ScriptTree

open Text

namespace Kind

/-- Punctuation and operators. They are numbered without a gap. -/
def isSymbol (kind : Kind) : Bool :=
  kind.id ≤ caretEq.id

/-- Keywords that are words. The include directive is the only other one. -/
def isReserved (kind : Kind) : Bool :=
  kind.isKeyword && kind != .includeKw

def isWord (kind : Kind) : Bool :=
  kind == .name || kind.isReserved

/-- The list of reserved words has a word for every one of them, and for no other kind. -/
theorem isReserved_iff (kind : Kind) : kind.isReserved = true ↔ kind ∈ keywords.map Prod.snd := by
  have hall : ∀ kind ∈ all, kind.isReserved = decide (kind ∈ keywords.map Prod.snd) := by
    decide +kernel
  rw [hall kind (List.mem_of_getElem? (all_getElem_id kind)), decide_eq_true_iff]

end Kind

/-- A token of this kind takes as much of the characters as can belong to it: it consists of
`taken`, and `after` is what follows it. -/
structure TakesMost (kind : Kind) (taken after : List Char) : Prop where
  spelled : kind.isSymbol = true → (taken, kind) ∈ operators
  longest : kind.isSymbol = true →
    ∀ entry ∈ operators, entry.1 <+: taken ++ after → entry.1.length ≤ taken.length
  whole : kind.isWord = true → taken ≠ [] ∧ (taken ++ after).takeWhile isNamePart = taken
  reserved : kind.isWord = true → (kind.isReserved = true ↔
    ∃ entry ∈ keywords, sameWord (String.ofList taken) entry.1 = true)
  named : kind.isWord = true →
    ∀ entry ∈ keywords, sameWord (String.ofList taken) entry.1 = true → entry.2 = kind
  single : kind = .unknown → taken.length = 1

/-- Nothing is asked of numbers, literals, the include directive and the end of the text. -/
theorem TakesMost.of_other {kind : Kind} (hsymbol : kind.isSymbol = false)
    (hword : kind.isWord = false) (hunknown : kind ≠ .unknown) (taken after : List Char) :
    TakesMost kind taken after where
  spelled h := absurd (hsymbol.symm.trans h) Bool.false_ne_true
  longest h := absurd (hsymbol.symm.trans h) Bool.false_ne_true
  whole h := absurd (hword.symm.trans h) Bool.false_ne_true
  reserved h := absurd (hword.symm.trans h) Bool.false_ne_true
  named h := absurd (hword.symm.trans h) Bool.false_ne_true
  single h := absurd h hunknown

/-- A word is looked up without regard to case. -/
theorem keyword?_of_sameWord {word : String} {entry : String × Kind} (hmem : entry ∈ keywords)
    (hsame : sameWord word entry.1 = true) : keyword? word = some entry.2 := by
  have htable : ∀ entry ∈ keywords, keyword? entry.1 = some entry.2 := by decide +kernel
  rw [← htable entry hmem, keyword?, keyword?, beq_iff_eq.mp hsame]

theorem sameWord_of_keyword? {word : String} {kind : Kind} (h : keyword? word = some kind) :
    ∃ entry ∈ keywords, sameWord word entry.1 = true ∧ entry.2 = kind := by
  have hlower : ∀ entry ∈ keywords, lower entry.1 = entry.1 := by decide
  have hmem := keyword?_mem h
  exact ⟨_, hmem, beq_iff_eq.mpr (hlower _ hmem).symm, rfl⟩

namespace Scan

/-- A word ends where its run of characters does, and is reserved if the run is. -/
theorem word_takesMost {c : Char} (hstart : isNameStart c = true) (rest : List Char) :
    TakesMost (word (c :: rest)).kind ((c :: rest).take (word (c :: rest)).size)
      ((c :: rest).drop (word (c :: rest)).size) := by
  let run := (c :: rest).takeWhile isNamePart
  have htake : (c :: rest).take (word (c :: rest)).size = run :=
    (List.prefix_iff_eq_take.mp (List.takeWhile_prefix _)).symm
  have hkind : (word (c :: rest)).kind = (keyword? (String.ofList run)).getD .name := by
    rw [word, sound]
  -- the words of the table differ, so the one that the run equals is the one that was looked up
  have hnamed : ∀ entry ∈ keywords, sameWord (String.ofList run) entry.1 = true →
      entry.2 = (word (c :: rest)).kind := by
    intro entry hmem hsame
    rw [hkind, keyword?_of_sameWord hmem hsame]
    rfl
  -- what is asked of symbols and of unknown characters does not concern a word
  have hordinary : (word (c :: rest)).kind.isSymbol = false ∧
      (word (c :: rest)).kind ≠ .unknown := by
    have hreserved : ∀ kind ∈ keywords.map Prod.snd, kind.isSymbol = false ∧ kind ≠ .unknown := by
      decide
    rcases word_kind (c :: rest) with h | h
    · rw [h]
      decide
    · exact hreserved _ h
  have hwhole : run ≠ [] := by
    have hsize := (@word_isFull c rest hstart).2
    exact List.ne_nil_of_length_pos hsize
  constructor
  case spelled | longest =>
    intro h
    exact absurd (hordinary.1.symm.trans h) Bool.false_ne_true
  case whole =>
    intro _
    rw [List.take_append_drop, htake]
    exact ⟨hwhole, rfl⟩
  case reserved =>
    intro _
    rw [htake]
    constructor
    · intro h
      rw [hkind] at h
      cases hfound : keyword? (String.ofList run) with
      | none =>
        rw [hfound] at h
        cases h
      | some kind =>
        obtain ⟨entry, hmem, hsame, -⟩ := sameWord_of_keyword? hfound
        exact ⟨entry, hmem, hsame⟩
    · rintro ⟨entry, hmem, hsame⟩
      rw [Kind.isReserved_iff, ← hnamed entry hmem hsame]
      exact List.mem_map_of_mem hmem
  case named =>
    intro _
    rw [htake]
    exact hnamed
  case single =>
    intro h
    exact absurd h hordinary.2

/-- An operator is the longest one that is spelled here, and where none is, one character is taken
as unknown. -/
theorem symbol_takesMost {chars : List Char} (h : chars ≠ []) :
    TakesMost (symbol chars).kind (chars.take (symbol chars).size)
      (chars.drop (symbol chars).size) := by
  rw [symbol_eq]
  split
  · next spelling kind hfound =>
    obtain ⟨hstarts, hlongest⟩ := operator?_longest hfound
    have htake : chars.take spelling.length = spelling := (List.prefix_iff_eq_take.mp hstarts).symm
    have hmem := operator?_mem hfound
    have hword : kind.isWord = false ∧ kind ≠ .unknown := by
      have htable : ∀ entry ∈ operators, entry.2.isWord = false ∧ entry.2 ≠ .unknown := by
        decide
      exact htable _ hmem
    simp only [sound]
    constructor
    case spelled =>
      intro _
      rw [htake]
      exact hmem
    case longest =>
      intro _
      rw [List.take_append_drop, htake]
      exact hlongest
    case whole | reserved | named =>
      intro hkind
      exact absurd (hword.1.symm.trans hkind) Bool.false_ne_true
    case single =>
      intro hkind
      exact absurd hkind hword.2
  · -- no operator fits, so that the character is unknown and stands alone
    constructor
    case single =>
      intro _
      obtain ⟨c, rest, rfl⟩ := List.exists_cons_of_ne_nil h
      rfl
    all_goals
      intro hkind
      exact absurd hkind (by decide)

/-- An ordinary token takes as much as can belong to it. -/
theorem plain_takesMost (preceding : Kind) (chars : List Char) :
    TakesMost (plain preceding chars).kind (chars.take (plain preceding chars).size)
      (chars.drop (plain preceding chars).size) := by
  by_cases hend : chars = []
  · subst hend
    exact .of_other rfl rfl Kind.noConfusion _ _
  have hordinary := ordinary_plain preceding chars
  generalize plain preceding chars = found at hordinary ⊢
  cases hordinary with
  | ended => exact absurd rfl hend
  | number starts =>
    have hnumber : ∀ kind : Kind, kind = .floatNumber ∨ kind = .intNumber →
        kind.isSymbol = false ∧ kind.isWord = false ∧ kind ≠ .unknown := by
      rintro kind (rfl | rfl)
      · decide
      · decide
    obtain ⟨hsymbol, hword, hunknown⟩ := hnumber _ (Number.measure_kind chars)
    exact .of_other hsymbol hword hunknown _ _
  | word start => exact word_takesMost start _
  | string rest => exact .of_other rfl rfl Kind.noConfusion _ _
  | name rest => exact .of_other rfl rfl Kind.noConfusion _ _
  | directive directs => exact .of_other rfl rfl Kind.noConfusion _ _
  | symbol noNumber => exact symbol_takesMost hend

end Scan

/-- Every token of a text takes as much of it as can belong to the token. A symbol is the longest
spelling in the table of operators that the text goes on with where the token stands. A name or a
reserved word is the whole run of name characters there, and reserved exactly if the run is a
reserved word up to case. An unknown token is one character. -/
theorem tokenize_takesMost {text : String} {token : Token} (h : token ∈ tokenize text) :
    ∃ after, token.StandsBefore text after ∧ TakesMost token.kind token.text.toList after := by
  obtain ⟨lexer, hreached, hmode, rfl⟩ := exists_plain_of_mem_tokenize h
  have hfound : lexer.found = Scan.plain lexer.preceding lexer.toScan := by
    rw [Lexer.found, hmode]
    rfl
  refine ⟨_, hreached.standsBefore, ?_⟩
  rw [hreached.placed.kind_eq, hreached.placed.text_eq, hfound]
  exact Scan.plain_takesMost _ _

/-- Shorter operators fit at the front of the symbol, and its last two characters are one. -/
theorem tokenize_takesMost_ushrEq :
    ∃ token ∈ tokenize "x>>>=Class#", token.kind = .ushrEq ∧ token.text = ">>>=" ∧
      ∃ after, token.StandsBefore "x>>>=Class#" after ∧
        TakesMost token.kind token.text.toList after := by
  have htoken : ∃ token ∈ tokenize "x>>>=Class#", token.kind = .ushrEq ∧ token.text = ">>>=" := by
    decide +kernel
  obtain ⟨token, hmem, hkind, htext⟩ := htoken
  exact ⟨token, hmem, hkind, htext, tokenize_takesMost hmem⟩

end ScriptTree

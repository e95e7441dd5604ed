import ScriptTree.Proofs.Parser.Refusal
import ScriptTree.Proofs.Reported

/-!
The limit of nesting. Where it is reached, that is reported; but the report is dropped with a
reading that is taken back, and another reading may then stand in its place. So a parse without such
a report is the parse at every greater limit only if none was dropped.
-/

namespace ScriptTree

namespace Grammar

open Phrase ParseState

/-- Whether the parse of a text conceals that nesting was refused. -/
def concealsRefusal (text : String) (limit : Nat) : Bool :=
  fileItems.conceals (drawRule grammar (ruleBudget limit))
    (concealsRule grammar (ruleBudget limit)) (.ofText text limit)

/-- The items of a text are the same at every greater limit, unless a refusal is reported or
concealed. -/
theorem fileReading_of_le {text : String} {limit limit' : Nat} (h : limit ≤ limit')
    (huntold : tellsRefusal (fileReading text limit).reports = false)
    (hshown : concealsRefusal text limit = false) :
    fileReading text limit' = fileReading text limit := by
  have hbudget : ruleBudget limit ≤ ruleBudget limit' := by
    unfold ruleBudget
    omega
  have hbears : Bears limit' (fileItems.draw (drawRule grammar (ruleBudget limit)))
      (fileItems.draw (drawRule grammar (ruleBudget limit')))
      (fileItems.conceals (drawRule grammar (ruleBudget limit))
        (concealsRule grammar (ruleBudget limit))) :=
    Bears.phrase (bears_drawRule grammar hbudget) fileItems
  exact hbears (.ofText text limit) h
    ⟨(covers_fileReading text limit).keeps, huntold, hshown⟩

/-- The parse of a text is decided by the reading of its items. -/
theorem parseWith_congr {text : String} {limit limit' : Nat}
    (h : fileReading text limit' = fileReading text limit) :
    parseWith text limit' = parseWith text limit := by
  have hshape : fileShape text limit' = fileShape text limit := by
    rw [fileShape, fileShape, h]
  simp only [parseWith_assemble, reports_readFile, hshape, h]

end Grammar

open Grammar

/-- If no refusal to nest deeper is reported, and none was concealed by taking a reading back, then
the tree and the reports are the same at every greater limit. -/
theorem parse_of_unrefused {text : String} {limit limit' : Nat} {parse : Parse}
    (hlimit : limit ≤ limit') (h : parseWith text limit = .ok parse)
    (huntold : ∀ report ∈ parse.diagnostics, report.kind ≠ .tooDeep)
    (hshown : concealsRefusal text limit = false) :
    parseWith text limit' = .ok parse := by
  obtain ⟨tree, hparse, -⟩ := parseWith_eq (size_lt_of_parseWith h) limit
  obtain rfl := Except.ok.inj (hparse.symm.trans h)
  have hnone : tellsRefusal (fileReading text limit).reports = false := by
    rw [tellsRefusal, List.any_eq_false]
    intro report hmem
    simpa using huntold report (mem_reports hmem)
  rw [parseWith_congr (fileReading_of_le hlimit hnone hshown), h]

/-- A method whose parameter has a type with two levels of arguments is read alike from limit 3
on. -/
theorem parse_method_of_unrefused : ∃ parse, parseWith "X f(a<b<c> > x);" 3 = .ok parse ∧
    parse.diagnostics = [] ∧ concealsRefusal "X f(a<b<c> > x);" 3 = false ∧
    parseWith "X f(a<b<c> > x);" 128 = .ok parse := by
  obtain ⟨tree, hparse, -⟩ :=
    parseWith_eq (show "X f(a<b<c> > x);".utf8ByteSize < UInt32.size by decide) 3
  have hsilent : (readFile "X f(a<b<c> > x);" 3).reports = [] := by decide +kernel
  have hshown : concealsRefusal "X f(a<b<c> > x);" 3 = false := by decide +kernel
  refine ⟨_, hparse, hsilent, hshown, ?_⟩
  refine parse_of_unrefused (by decide) hparse ?_ hshown
  intro report hmem
  simp [hsilent] at hmem

/-- With three levels of arguments the limit 3 is reached while the method is tried. The attempt is
taken back with its report, and a field that is initialised by an expression stands in its place.
Neither parse has anything to report. -/
theorem parse_limit_concealed : ∃ parse parse', parseWith "X f(a<b<c<d>>> x);" 3 = .ok parse ∧
    parseWith "X f(a<b<c<d>>> x);" 4 = .ok parse' ∧ parse.diagnostics = [] ∧
    parse'.diagnostics = [] ∧ parse.tree.kind 1 = .fieldDeclaration ∧
    parse'.tree.kind 1 = .functionDefinition ∧ parse.tree ≠ parse'.tree := by
  have hfield : (parseWith "X f(a<b<c<d>>> x);" 3).toOption.map
      (fun parse => (parse.diagnostics, parse.tree.kind 1)) = some ([], .fieldDeclaration) := by
    decide +kernel
  have hmethod : (parseWith "X f(a<b<c<d>>> x);" 4).toOption.map
      (fun parse => (parse.diagnostics, parse.tree.kind 1)) = some ([], .functionDefinition) := by
    decide +kernel
  have hsize : "X f(a<b<c<d>>> x);".utf8ByteSize < UInt32.size := by decide
  obtain ⟨tree, hparse, -⟩ := parseWith_eq hsize 3
  obtain ⟨tree', hparse', -⟩ := parseWith_eq hsize 4
  rw [hparse] at hfield
  rw [hparse'] at hmethod
  obtain ⟨hsilent, hkind⟩ := Prod.mk.inj (Option.some.inj hfield)
  obtain ⟨hsilent', hkind'⟩ := Prod.mk.inj (Option.some.inj hmethod)
  refine ⟨_, _, hparse, hparse', hsilent, hsilent', hkind, hkind', ?_⟩
  rintro rfl
  rw [hkind] at hkind'
  cases hkind'

end ScriptTree

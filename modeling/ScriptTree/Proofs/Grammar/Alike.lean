import ScriptTree.Proofs.Parser.Alike

/-!
Files that look alike. Outside blocks of states the grammar has ordinary phrases only, so texts that
look alike have shapes that are alike, and the same reports in the same order.
-/

namespace ScriptTree

/-- Sorting keeps lists related one by one, if what is related is ordered in the same way. -/
theorem forall₂_mergeSort {α β : Type} {R : α → β → Prop} {le : α → α → Bool}
    {le' : β → β → Bool} {xs : List α} {ys : List β} (h : List.Forall₂ R xs ys)
    (hle : ∀ a b, R a b → ∀ c d, R c d → le' b d = le a c) :
    List.Forall₂ R (xs.mergeSort le) (ys.mergeSort le') := by
  obtain ⟨hlength, hzip⟩ := List.forall₂_iff_zip.mp h
  -- both lists are sides of one list of pairs, and sorting a side sorts the pairs
  have hfst : (xs.zip ys).map Prod.fst = xs := List.map_fst_zip (by omega)
  have hsnd : (xs.zip ys).map Prod.snd = ys := List.map_snd_zip (by omega)
  have hrel : ∀ pair ∈ xs.zip ys, R pair.1 pair.2 := fun pair hpair => hzip hpair
  let sorted := (xs.zip ys).mergeSort fun a b => le a.1 b.1
  have hleft : sorted.map Prod.fst = xs.mergeSort le := by
    conv => rhs; rw [← hfst]
    exact List.map_mergeSort fun a _ b _ => rfl
  have hright : sorted.map Prod.snd = ys.mergeSort le' := by
    conv => rhs; rw [← hsnd]
    exact List.map_mergeSort fun a ha b hb => (hle _ _ (hrel a ha) _ _ (hrel b hb)).symm
  rw [← hleft, ← hright, List.forall₂_map_left_iff, List.forall₂_map_right_iff,
    List.forall₂_same]
  exact fun pair hpair => hrel pair (List.mem_mergeSort.mp hpair)

namespace Grammar

open Phrase

theorem isOrdinary_grammar (rule : Rule) : (grammar rule).isOrdinary = true := by
  cases rule with
  | expression least => cases least <;> decide
  | _ => decide

theorem isOrdinary_fileItems : fileItems.isOrdinary = true := by
  decide

variable {text text' : String} {likeness : Likeness text text'}

theorem alike_fileReading (h : likeness.lexer (.ofText text) (.ofText text')) (limit : Nat) :
    (fileReading text limit).Alike likeness (fileReading text' limit) := by
  have hrules (rule : Rule) : Mirrors likeness (drawRule grammar (ruleBudget limit) rule) :=
    mirrors_drawRule isOrdinary_grammar _ rule
  exact Mirrors.phrase hrules isOrdinary_fileItems (.ofText text limit)
    (.ofText text' limit) ⟨h, rfl, rfl, rfl, rfl⟩ (covers_fileReading text limit).keeps
    (covers_fileReading text' limit).keeps

theorem alike_fileShape (h : likeness.lexer (.ofText text) (.ofText text')) (limit : Nat) :
    (fileShape text limit).Alike likeness.token (fileShape text' limit) := by
  have hreading := alike_fileReading h limit
  have hend := Shape.alike_leaf (likeness.current hreading.lexer) none
  exact Shape.alike_node (List.rel_append hreading.shapes (.cons hend .nil))

/-- What is wrong with tokens that are alike is reported alike. -/
theorem forall₂_errors {tokens tokens' : List Token}
    (h : List.Forall₂ likeness.token tokens tokens') :
    List.Forall₂ (Diagnostic.Alike likeness)
      ((tokens.filterMap (·.error)).map LexError.report)
      ((tokens'.filterMap (·.error)).map LexError.report) := by
  induction h with
  | nil => exact .nil
  | @cons token token' tokens tokens' hhead _ ih =>
    have herror := likeness.error hhead
    simp only [List.filterMap_cons]
    generalize token.error = error at herror
    generalize token'.error = error' at herror
    cases herror with
    | none => exact ih
    | some herror =>
      refine .cons ⟨rfl, herror.2, fun _ => ?_⟩ ih
      simp only [LexError.report, herror.1]

theorem alike_reports (h : likeness.lexer (.ofText text) (.ofText text')) (limit : Nat) :
    List.Forall₂ (Diagnostic.Alike likeness) (readFile text limit).reports
      (readFile text' limit).reports := by
  rw [reports_readFile, reports_readFile]
  refine forall₂_mergeSort (List.rel_append (alike_fileReading h limit).reports
    (forall₂_errors (alike_fileShape h limit).tokens)) ?_
  intro a b hab c d hcd
  simp only [likeness.ordered hab.place hcd.place]

end Grammar

end ScriptTree

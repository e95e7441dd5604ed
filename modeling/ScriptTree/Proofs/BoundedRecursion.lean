import ScriptTree.Proofs.Parser.Calls
import ScriptTree.Proofs.Progress

/-!
Bounded recursion. However a text is nested, the phrases in progress at once are at most a fixed
number at each level up to the limit of nesting. In particular the budget for rules is never used
up, and any larger budget reads the same.
-/

namespace ScriptTree

namespace Grammar

open Phrase ParseState

def phraseLoads : Loads grammar fun _ => true where
  calls
    | .expression _ | .type | .initializers | .statement => 1
    | .compound => 7
    | .declarator => 14
    | .arguments => 17
    | .suffixed => 30
    | .unary => 32
    | .declaration => 34
    | .member => 60
  bound := 80
  rules rule := by
    cases rule with
    | expression least => cases least <;> decide
    | _ => decide

def ruleLoads : Loads grammar isCall where
  calls := rank
  bound := 8
  rules rule := by
    cases rule with
    | expression least => cases least <;> decide
    | _ => decide

def fileFrame (budget : Nat) (text : String) (limit : Nat) : CallFrame Rule :=
  ⟨budget, fileItems, (ofText text limit).openNode⟩

/-- Phrases that are in progress at once while a text is read, from the outside in. -/
def InProgress (budget : Nat) (text : String) (limit : Nat) (frames : List (CallFrame Rule)) :
    Prop :=
  frames.head? = some (fileFrame budget text limit) ∧
    frames.IsChain fun outer inner => inner ∈ outer.starts grammar

def readWithin (budget : Nat) (text : String) (limit : Nat) : ParseState :=
  let last := (fileItems.run (runRule grammar budget) (ofText text limit).openNode).2
  (((last.demand .eof).push none).endNode 0 (.chose .sourceFile)).2

variable {budget limit : Nat} {text : String} {frames : List (CallFrame Rule)}

theorem InProgress.exists_cons (h : InProgress budget text limit frames) :
    ∃ more, frames = fileFrame budget text limit :: more := by
  obtain ⟨hhead, -⟩ := h
  obtain ⟨more, rfl⟩ := List.head?_eq_some_iff.mp hhead
  exact ⟨more, rfl⟩

/-- The reserve of a file is that of one level for each level up to the limit. -/
theorem holds_fileFrame {counted : Clause → Bool} {loads : Loads grammar counted}
    (h : (nested fileItems).keepsLoad counted loads.calls loads.bound = true) (budget : Nat)
    (text : String) (limit : Nat) :
    loads.Holds (fileFrame budget text limit) ∧
      loads.reserve (fileFrame budget text limit) ≤ loads.bound * (limit + 1) := by
  simp only [keepsLoad, Bool.and_eq_true, decide_eq_true_eq] at h
  obtain ⟨hload, hkeeps⟩ := h
  refine ⟨⟨hkeeps, Nat.zero_le _⟩, ?_⟩
  have hdepth : (fileFrame budget text limit).state.depth = 0 := rfl
  have hlimit : (fileFrame budget text limit).state.limit = limit := rfl
  rw [Loads.reserve, hdepth, hlimit, Nat.sub_zero, Nat.mul_add, Nat.mul_one, Nat.add_comm]
  exact Nat.add_le_add_left hload _

/-- At most eighty phrases are in progress for each level up to the limit, and none is deeper. -/
theorem InProgress.length_le (h : InProgress budget text limit frames) :
    frames.length ≤ 80 * (limit + 1) ∧ ∀ frame ∈ frames, frame.state.depth ≤ limit := by
  obtain ⟨more, rfl⟩ := h.exists_cons
  have hkeeps : (nested fileItems).keepsLoad (fun _ => true) phraseLoads.calls phraseLoads.bound =
      true := by decide
  obtain ⟨hfile, hreserve⟩ := holds_fileFrame hkeeps budget text limit
  obtain ⟨hcount, hall⟩ := Loads.holds_of_chain hfile h.2
  rw [List.countP_true] at hcount
  refine ⟨Nat.le_trans hcount hreserve, fun frame hmem => ?_⟩
  obtain ⟨hholds, hlimit⟩ := hall frame hmem
  exact Nat.le_trans hholds.depth (Nat.le_of_eq hlimit)

/-- No rule is started without budget. -/
theorem InProgress.budget_ne (h : InProgress budget text limit frames)
    (hbudget : ruleBudget limit ≤ budget) :
    ∀ frame ∈ frames, frame.phrase.isCall = true → frame.budget ≠ 0 := by
  obtain ⟨more, rfl⟩ := h.exists_cons
  have hkeeps : (nested fileItems).keepsLoad isCall ruleLoads.calls ruleLoads.bound = true := by
    decide
  obtain ⟨hfile, hreserve⟩ := holds_fileFrame hkeeps budget text limit
  exact Loads.budget_of_chain hfile (Nat.le_trans hreserve hbudget) h.2

/-- Every budget from the usual one on reads the same. -/
theorem readWithin_eq (hbudget : ruleBudget limit ≤ budget) :
    readWithin budget text limit = readFile text limit := by
  obtain ⟨last, hruns, -, -, -, hfile⟩ := runs_fileItems text limit
  obtain ⟨last', hlast', hruns', -⟩ :=
    run_repetition (show item ∈ repeated by simp [repeated])
      (fun state ht => bne_iff_ne.mp (holds_not_eof state ▸ ht))
      (ofText text limit).openNode.rounds (fun _ _ => rfl) (Lexer.reached_ofText text) rfl hbudget
      (Nat.lt_succ_self _)
  obtain rfl : last' = last := congrArg Prod.snd (hruns'.unique hruns)
  rw [hfile, readWithin, ← hlast']
  rfl

/-- There is a number of phrases that may be in progress at each level, whatever the text and the
limit of nesting. No level beyond the limit is entered, and all are left in the end. The budget for
rules is never used up, and so all larger ones give the same. -/
theorem recursion_bounded : ∃ K, ∀ (text : String) (limit : Nat),
    (∀ budget frames, InProgress budget text limit frames →
      frames.length ≤ K * (limit + 1) ∧ ∀ frame ∈ frames, frame.state.depth ≤ limit) ∧
    ruleBudget limit ≤ K * (limit + 1) ∧
    (∀ budget, ruleBudget limit ≤ budget →
      (∀ frames, InProgress budget text limit frames →
        ∀ frame ∈ frames, frame.phrase.isCall = true → frame.budget ≠ 0) ∧
      readWithin budget text limit = readFile text limit) ∧
    (readFile text limit).depth = 0 := by
  refine ⟨80, fun text limit => ⟨fun budget frames h => h.length_le, ?_, ?_, ?_⟩⟩
  · rw [ruleBudget]
    omega
  · exact fun budget hbudget => ⟨fun frames h => h.budget_ne hbudget, readWithin_eq hbudget⟩
  · obtain ⟨last, -, -, -, hdepth, hfile⟩ := runs_fileItems text limit
    rw [hfile]
    exact hdepth

/-- The first item of a file, in progress at the least limit. -/
theorem recursion_bounded_at_item : ∃ K frames, InProgress (ruleBudget 0) "a" 0 frames ∧
    frames.length = 2 ∧ 2 ≤ K * (0 + 1) ∧ readWithin (ruleBudget 0) "a" 0 = readFile "a" 0 := by
  obtain ⟨K, hK⟩ := recursion_bounded
  obtain ⟨hframes, -, hbudget, -⟩ := hK "a" 0
  have hstart : (ofText "a" 0).openNode ∈
      loopStates (fun state => Test.holds state (.not (.sees .eof)))
        ((recover item).run (runRule grammar (ruleBudget 0))) (ofText "a" 0).openNode
        (ofText "a" 0).openNode.rounds := by
    rw [show (ofText "a" 0).openNode.rounds = 1 + 1 from rfl, loopStates,
      if_pos (by decide +kernel)]
    exact List.mem_cons_self
  have hprogress : InProgress (ruleBudget 0) "a" 0
      [fileFrame (ruleBudget 0) "a" 0, ⟨ruleBudget 0, .recover item, (ofText "a" 0).openNode⟩] :=
    ⟨rfl, List.isChain_pair.mpr (List.mem_map_of_mem hstart)⟩
  exact ⟨K, _, hprogress, rfl, (hframes _ _ hprogress).1, (hbudget _ (Nat.le_refl _)).2⟩

end Grammar

end ScriptTree

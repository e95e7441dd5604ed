import ScriptTree.Proofs.Tree.Places

/-!
Trees that differ in what a view leaves out. A tree is built step by step, so two trees whose steps
look alike from some point of view look alike themselves, if what a step does to the view depends on
the view only.
-/

namespace ScriptTree

namespace Builder

variable {α β : Type}

def Reveals (view : Builder → α) (sight : BuildStep → β) : Prop :=
  ∀ {builder builder' after after' : Builder} {step step' : BuildStep},
    view builder' = view builder → sight step' = sight step → builder.step step = .ok after →
      builder'.step step' = .ok after' → view after' = view after

/-- So does what a run makes visible. -/
theorem Reveals.run {view : Builder → α} {sight : BuildStep → β} (h : Reveals view sight)
    {builder builder' after after' : Builder} {steps steps' : List BuildStep}
    (hview : view builder' = view builder) (hsteps : steps'.map sight = steps.map sight)
    (hrun : builder.run steps = .ok after) (hrun' : builder'.run steps' = .ok after') :
    view after' = view after := by
  induction steps generalizing builder builder' steps' with
  | nil =>
    obtain rfl := List.map_eq_nil_iff.mp hsteps
    obtain rfl := Except.ok.inj hrun
    obtain rfl := Except.ok.inj hrun'
    exact hview
  | cons step rest ih =>
    obtain ⟨step', rest', rfl, hstep, hrest⟩ := List.map_eq_cons_iff.mp hsteps
    rw [run_cons] at hrun hrun'
    cases hs : builder.step step with
    | error fault =>
      rw [hs] at hrun
      cases hrun
    | ok next =>
      cases hs' : builder'.step step' with
      | error fault =>
        rw [hs'] at hrun'
        cases hrun'
      | ok next' =>
        rw [hs] at hrun
        rw [hs'] at hrun'
        exact ih (h hview hstep hs hs') hrest hrun hrun'

theorem eq_entered_of_step {builder after : Builder} {kind : Kind} {field : Option Field}
    (h : builder.step (.start kind field) = .ok after) : after = builder.entered kind field := by
  simp only [step, start] at h
  split at h
  · cases h
  · exact (Except.ok.inj h).symm

theorem eq_left_of_step {builder after : Builder} (h : builder.step .finish = .ok after) :
    ∃ inner outer, builder.opened = inner :: outer ∧
      after = builder.left inner.id inner.children.reverse outer := by
  cases hopen : builder.opened with
  | nil =>
    simp only [step, finishNode, hopen] at h
    cases h
  | cons inner outer =>
    have hreverse : builder.opened = ⟨inner.id, inner.children.reverse.reverse⟩ :: outer := by
      rw [hopen, List.reverse_reverse]
    exact ⟨inner, outer, rfl, (Except.ok.inj ((step_finish hreverse).symm.trans h)).symm⟩

def untitled (builder : Builder) : Builder :=
  { builder with text := "" }

/-- The text decides whether a step is taken, but not what comes of it. -/
theorem reveals_untitled : Reveals untitled id := by
  intro builder builder' after after' step step' hview hstep h h'
  obtain rfl : step' = step := hstep
  obtain ⟨text, rfl⟩ : ∃ text, builder' = { builder with text } := by
    refine ⟨builder'.text, ?_⟩
    have hwith := congrArg (fun other : Builder => { other with text := builder'.text }) hview
    exact hwith
  cases step' with
  | start kind field =>
    rw [eq_entered_of_step h, eq_entered_of_step h']
    rfl
  | token leading kind size trailing field =>
    obtain ⟨inner, outer, hopen, rfl⟩ := eq_laid_of_step h
    obtain ⟨inner', outer', hopen', rfl⟩ := eq_laid_of_step h'
    obtain ⟨rfl, -⟩ := List.cons.inj (hopen.symm.trans hopen')
    rfl
  | finish =>
    obtain ⟨inner, outer, hopen, rfl⟩ := eq_left_of_step h
    obtain ⟨inner', outer', hopen', rfl⟩ := eq_left_of_step h'
    obtain ⟨rfl, rfl⟩ := List.cons.inj (hopen.symm.trans hopen')
    rfl

end Builder

def Node.bare (node : Node) : Node :=
  { node with span := ⟨0, 0⟩ }

def Leaf.bare (leaf : Leaf) : Leaf :=
  { leaf with span := ⟨0, 0⟩, leading := ⟨0, 0⟩, trailing := ⟨0, 0⟩ }

/-- The tree without its text, its layout and all places: which nodes and tokens there are, of which
kinds, in which slots, and how they are nested. -/
def Tree.bare (tree : Tree) : Tree :=
  { text := ""
    nodes := tree.nodes.map Node.bare
    leaves := tree.leaves.map Leaf.bare
    trivia := #[]
    children := tree.children }

def BuildStep.bare : BuildStep → BuildStep
  | .token _ kind _ _ field => .token [] kind 0 [] field
  | step => step

namespace Builder

def bare (builder : Builder) : Builder :=
  { builder with
    text := ""
    nodes := builder.nodes.map Node.bare
    leaves := builder.leaves.map Leaf.bare
    trivia := #[]
    offset := 0 }

theorem bare_entered (builder : Builder) (kind : Kind) (field : Option Field) :
    (builder.entered kind field).bare = builder.bare.entered kind field := by
  simp [bare, entered, newNode, Node.bare, Span.point]

theorem bare_laid (builder : Builder) (home : NodeId) (leading trailing : List Piece) (kind : Kind)
    (size : Nat) (field : Option Field) :
    (builder.laid home leading kind size trailing field).bare =
      builder.bare.laid home [] kind 0 [] field := by
  simp [bare, laid, newLeaf, Leaf.bare, entriesFrom, Piece.totalSize, Span.sized]

theorem bare_left (builder : Builder) (id : NodeId) (elements : List Element)
    (outer : List OpenNode) :
    (builder.left id elements outer).bare = builder.bare.left id elements outer := by
  have hfinished (node : Node) : (builder.finished elements.length node).bare =
      builder.bare.finished elements.length node.bare := by
    simp [finished, Node.bare, bare]
  have hnodes : (builder.nodes.modify id (builder.finished elements.length)).map Node.bare =
      (builder.nodes.map Node.bare).modify id (builder.bare.finished elements.length) := by
    apply Array.ext_getElem?
    intro i
    rw [Array.getElem?_map, Array.getElem?_modify, Array.getElem?_modify, Array.getElem?_map]
    split
    · simp only [Option.map_map]
      exact congrArg (builder.nodes[i]?.map ·) (funext hfinished)
    · rfl
  simp only [bare, left] at hnodes ⊢
  rw [hnodes]

/-- Neither the layout nor any place decides which nodes and tokens there are. -/
theorem reveals_bare : Reveals bare BuildStep.bare := by
  intro builder builder' after after' step step' hview hstep h h'
  have hopened : builder'.bare.opened = builder.bare.opened := by rw [hview]
  change builder'.opened = builder.opened at hopened
  cases step with
  | start kind field =>
    obtain rfl : step' = .start kind field := by cases step' <;> simp_all [BuildStep.bare]
    rw [eq_entered_of_step h, eq_entered_of_step h', bare_entered, bare_entered, hview]
  | token leading kind size trailing field =>
    obtain ⟨leading', size', trailing', rfl⟩ : ∃ leading' size' trailing',
        step' = .token leading' kind size' trailing' field := by
      cases step' <;> simp_all [BuildStep.bare]
    obtain ⟨inner, outer, hopen, rfl⟩ := eq_laid_of_step h
    obtain ⟨inner', outer', hopen', rfl⟩ := eq_laid_of_step h'
    obtain ⟨rfl, -⟩ := List.cons.inj (hopen'.symm.trans (hopened.trans hopen))
    rw [bare_laid, bare_laid, hview]
  | finish =>
    obtain rfl : step' = .finish := by cases step' <;> simp_all [BuildStep.bare]
    obtain ⟨inner, outer, hopen, rfl⟩ := eq_left_of_step h
    obtain ⟨inner', outer', hopen', rfl⟩ := eq_left_of_step h'
    obtain ⟨rfl, rfl⟩ := List.cons.inj (hopen'.symm.trans (hopened.trans hopen))
    rw [bare_left, bare_left, hview]

end Builder

namespace Tree

variable {text text' : String} {steps steps' : List BuildStep} {tree tree' : Tree}

/-- The same steps on another text build the same tables. -/
theorem eq_of_assemble (h : assemble text steps = .ok tree)
    (h' : assemble text' steps = .ok tree') :
    tree' = { tree with text := tree'.text } := by
  obtain ⟨after, hrun, -, -, -, rfl⟩ := ends_of_assemble h
  obtain ⟨after', hrun', -, -, -, rfl⟩ := ends_of_assemble h'
  have hempty : (Builder.empty text').untitled = (Builder.empty text).untitled := rfl
  have hview := Builder.reveals_untitled.run hempty rfl hrun hrun'
  exact congrArg (fun other : Builder => { other.tables with text := after'.tables.text }) hview

/-- Steps that lay other layout and other tokens of the same kinds build the same nodes. -/
theorem bare_eq_of_assemble (h : assemble text steps = .ok tree)
    (h' : assemble text' steps' = .ok tree')
    (hsteps : steps'.map BuildStep.bare = steps.map BuildStep.bare) : tree'.bare = tree.bare := by
  obtain ⟨after, hrun, -, -, -, rfl⟩ := ends_of_assemble h
  obtain ⟨after', hrun', -, -, -, rfl⟩ := ends_of_assemble h'
  have hempty : (Builder.empty text').bare = (Builder.empty text).bare := rfl
  have hview := Builder.reveals_bare.run hempty hsteps hrun hrun'
  exact congrArg Builder.tables hview

end Tree

end ScriptTree

import ScriptTree.Proofs.Containment
import ScriptTree.Proofs.Recovery.Mishaps
import ScriptTree.Proofs.Recovery.Reach

/-!
Recovered errors are localized. The error nodes of a tree are, in order, the mishaps of its file. Of
an element that was lost one report is kept. It never starts before the error node, and not behind
it either if the node reaches the end of the text or the head of the element is straight. Heads that
are not straight are those that a report can be behind.
-/

namespace ScriptTree

namespace Grammar

open Phrase Reading ParseState

def fileMishaps (text : String) (limit : Nat) : List (Mishap Rule) :=
  fileItems.mishaps (drawRule grammar (ruleBudget limit)) (ruleMishaps grammar (ruleBudget limit))
    (.ofText text limit)

theorem triesAhead_grammar (rule : Rule) : (grammar rule).triesAhead .full = true := by
  cases rule with
  | expression least => cases least <;> decide
  | _ => decide +kernel

theorem triesAhead_fileItems : fileItems.triesAhead .full = true := by
  decide +kernel

theorem elements_fileItems : ∀ element ∈ fileItems.elements, element ∈ repeated := by
  show ∀ element ∈ [item, .call .member, .call .member, .call .member, enumerator, .call .member,
    .call .member, .call .member], element ∈ repeated
  simp [repeated]

def LostInText (text : String) : Mishap Rule → Prop
  | .lost element state reading => Failed text element state reading
  | .refused _ => True

/-- What a rule gives up was lost in the text. -/
theorem tellsOf_ruleMishaps (text : String) (budget : Nat) (rule : Rule) :
    TellsOf (LostInText text) text .full (drawRule grammar budget rule)
      (ruleMishaps grammar budget rule) := by
  induction budget generalizing rule with
  | zero =>
    intro state _ _ hkept
    cases hkept
  | succ budget ih =>
    refine tells_draw (accounts_drawRule grammar budget)
      (answers_drawRule answers_grammar budget) ih
      (fun _ => trivial) (answers_grammar rule) (triesAhead_grammar rule) ?_
    intro element hmem state hstate heof hkept hfailures
    exact ⟨elements_grammar rule element hmem, hstate, heof, ⟨budget, rfl⟩, hkept, hfailures⟩

/-- What a file gives up was lost in the text. -/
theorem tells_fileReading (text : String) (limit : Nat) :
    (fileReading text limit).Tells (LostInText text) (fileMishaps text limit) := by
  have hitems : TellsOf (LostInText text) text .full
      (fileItems.draw (drawRule grammar (ruleBudget limit)))
      (fileItems.mishaps (drawRule grammar (ruleBudget limit))
        (ruleMishaps grammar (ruleBudget limit))) := by
    refine tells_draw (accounts_drawRule grammar _) (answers_drawRule answers_grammar _)
      (tellsOf_ruleMishaps text _) (fun _ => trivial) answers_fileItems triesAhead_fileItems ?_
    intro element hmem state hstate heof hkept hfailures
    exact ⟨elements_fileItems element hmem, hstate, heof, ⟨_, rfl⟩, hkept, hfailures⟩
  exact hitems _ ⟨Lexer.reached_ofText text, rfl⟩ (KindSet.contains_full _)
    (covers_fileReading text limit).keeps

/-- The error nodes of a file are its mishaps. -/
theorem errors_fileShape (text : String) (limit : Nat) :
    (fileShape text limit).errors = (fileMishaps text limit).map Mishap.tokens := by
  rw [← (tells_fileReading text limit).errors]
  simp [fileShape, Shape.errors]

end Grammar

def Tree.errorNodes (tree : Tree) : List NodeId :=
  (List.range tree.nodeCount).filter fun id => tree.kind id == .error

namespace Shape

def HasError (whole : Shape) (id : NodeId) (tokens : List Token) : Prop :=
  ∃ home field children site, Part whole home (.node .error field children) site ∧
    site.node = id ∧ tokensAll children = tokens

variable {tree : Tree} {whole : Shape}

mutual

/-- The error nodes that are numbered within a part are those of the part. -/
theorem Part.forall₂_errors (hw : whole.Sits tree none Site.front) : ∀ {shape : Shape}
    {home : Option NodeId} {site : Site}, Part whole home shape site →
    List.Forall₂ whole.HasError
      ((List.range' site.node shape.size).filter fun id => tree.kind id == .error) shape.errors
  | .leaf token field, home, site, _ => by
    simp [size, errors]
  | .node kind field children, home, site, hpart => by
    have hkind : tree.kind site.node = kind := (hpart.sits hw).kind_node
    have hinside := Part.forall₂_errorsAll hw [] hpart
    rw [Site.pastAll_nil] at hinside
    rw [size, List.range'_succ, List.filter_cons, hkind, errors]
    by_cases herror : kind = .error
    · subst herror
      exact .cons ⟨home, field, children, site, hpart, rfl, rfl⟩ hinside
    · rw [if_neg herror, if_neg (by simpa using herror)]
      exact hinside

/-- The error nodes that are numbered within children of a part are those of the children. -/
theorem Part.forall₂_errorsAll (hw : whole.Sits tree none Site.front) :
    ∀ {shapes : List Shape} (before : List Shape) {home : Option NodeId} {kind : Kind}
    {field : Option Field} {site : Site},
    Part whole home (.node kind field (before ++ shapes)) site →
    List.Forall₂ whole.HasError
      ((List.range' (site.inside.pastAll before).node (sizeAll shapes)).filter
        fun id => tree.kind id == .error) (errorsAll shapes)
  | [], before, home, kind, field, site, _ => by
    simp [sizeAll]
  | shape :: rest, before, home, kind, field, site, hpart => by
    have hshape := Part.forall₂_errors hw (.child hpart)
    have happend : before ++ shape :: rest = before ++ [shape] ++ rest := by simp
    have hrest := Part.forall₂_errorsAll hw (before ++ [shape]) (happend ▸ hpart)
    rw [Site.pastAll_append, Site.pastAll_singleton] at hrest
    rw [sizeAll, errorsAll, ← List.range'_append_1, List.filter_append]
    exact List.rel_append hshape hrest

end

end Shape

theorem Tree.Houses.forall₂_errors {tree : Tree} {whole : Shape} (h : tree.Houses whole) :
    List.Forall₂ whole.HasError tree.errorNodes whole.errors := by
  have hall := Shape.Part.forall₂_errors h.sits .whole
  rw [← h.nodes] at hall
  rwa [errorNodes, List.range_eq_range']

/-- Where tokens start is seen in the first of them. -/
theorem Tiled.start_eq {a a' b b' : Cursor} {tokens : List Token} (h : Tiled a tokens b)
    (h' : Tiled a' tokens b') (hne : tokens ≠ []) : a.offset = a'.offset := by
  cases h with
  | nil => exact absurd rfl hne
  | cons hfills _ =>
    cases h' with
    | cons hfills' _ =>
      obtain ⟨first, _, hleading, -, hspan, -⟩ := hfills
      obtain ⟨first', _, hleading', -, hspan', -⟩ := hfills'
      have hoffset := hleading.offset_eq
      have hoffset' := hleading'.offset_eq
      have hsame : first.offset = first'.offset := congrArg Span.start (hspan.symm.trans hspan')
      omega

/-- A part with tokens lies where its tokens do. -/
theorem Shape.Part.place_eq {whole shape : Shape} {home : Option NodeId} {site : Site}
    (h : Part whole home shape site) {text : String} {stop : Cursor}
    (htiled : Tiled (.ofText text) whole.tokens stop) (hne : shape.tokens ≠ []) {a b : Cursor}
    (hshape : Tiled a shape.tokens b) :
    site.offset = a.offset ∧ site.offset + widthOf shape.tokens = b.offset := by
  obtain ⟨front, back, htokens, -, hfront⟩ := h.exists_tokens
  rw [htokens] at htiled
  obtain ⟨behind, hbehind, -⟩ := htiled.split
  obtain ⟨start, hbefore, hown⟩ := hbehind.split
  have hstart : site.offset = start.offset := by
    rw [hbefore.offset_eq, hfront]
    exact (Nat.zero_add _).symm
  rw [hstart, hown.start_eq hshape hne, hshape.offset_eq]
  exact ⟨rfl, rfl⟩

/-- An error node with tokens spans them. -/
theorem Tree.Houses.place_of_hasError {tree : Tree} {whole : Shape} (h : tree.Houses whole)
    {text : String} {stop : Cursor} (htiled : Tiled (.ofText text) whole.tokens stop) {id : NodeId}
    {tokens : List Token} (herror : whole.HasError id tokens) (hne : tokens ≠ []) {a b : Cursor}
    (hown : Tiled a tokens b) :
    tree.nodeSpan id = ⟨a.offset, b.offset⟩ ∧ tree.kindsBelow id = tokens.map (·.kind) := by
  obtain ⟨home, field, children, site, hpart, rfl, rfl⟩ := herror
  have hsits := hpart.sits h.sits
  obtain ⟨hstart, hstop⟩ := hpart.place_eq htiled hne hown
  refine ⟨?_, hsits.kindsBelow⟩
  rw [← hstart, ← hstop]
  exact hsits.elementSpan_element

open Grammar

/-- What is skipped of an element that has failed lies between where the element starts and where
reading goes on. -/
theorem Grammar.Failed.tiled {text : String} {element : Clause} {state : ParseState}
    {reading : Reading} (h : Failed text element state reading) :
    (Mishap.lost element state reading).tokens ≠ [] ∧
      Tiled state.lexer.start (Mishap.lost element state reading).tokens
        (Reading.skipped state reading).lexer.start := by
  obtain ⟨tokens, hskipping, htokens⟩ := Reading.skipping_skipped h.stands reading
  have hreads := hskipping.reads.tiled h.stands.reached.placed
  simp only [Mishap.tokens, htokens]
  refine ⟨by simpa using hskipping.ne_nil h.ahead, hreads.of_cleared ?_⟩
  rw [List.map_map]
  rfl

/-- The error node of an element that was lost spans what was skipped of it. -/
theorem Tree.Houses.forall₂_skipped {tree : Tree} {text : String} {limit : Nat}
    (h : tree.Houses (fileShape text limit)) :
    List.Forall₂ (fun id mishap => ∀ element state reading,
        mishap = .lost element state reading →
        tree.nodeSpan id =
            ⟨state.lexer.start.offset, (Reading.skipped state reading).lexer.start.offset⟩ ∧
          tree.kindsBelow id = mishap.tokens.map (·.kind))
      tree.errorNodes (fileMishaps text limit) := by
  obtain ⟨stop, htiled, -⟩ := tiled_fileShape text limit
  have herrors := h.forall₂_errors
  rw [errors_fileShape, List.forall₂_map_right_iff] at herrors
  obtain ⟨hlength, hpairs⟩ := List.forall₂_iff_zip.mp herrors
  refine List.forall₂_iff_zip.mpr ⟨hlength, ?_⟩
  rintro id _ hzip element state reading rfl
  have hfailed : Failed text element state reading :=
    (tells_fileReading text limit).holds _ (List.of_mem_zip hzip).2
  obtain ⟨hne, hown⟩ := hfailed.tiled
  exact h.place_of_hasError htiled (hpairs hzip) hne hown

/-- In the tree of every text, the error nodes are the mishaps of the file. Each element that was
lost has failed where its error node starts, and one report of it is kept. The report does not start
before the node. It does not start behind it either if the node reaches the end of the text, or if
the element is straight with the tokens of the node. -/
theorem errors_localized {text : String} (h : text.utf8ByteSize < 2 ^ 32) (limit : Nat) :
    ∃ parse, parseWith text limit = .ok parse ∧
      List.Forall₂ (fun id mishap => ∀ element state reading,
          mishap = .lost element state reading →
          let span := parse.tree.nodeSpan id
          Failed text element state reading ∧ span.start = state.lexer.start.offset ∧
            ∃ report ∈ parse.diagnostics, (Reading.skipped state reading).reports = [report] ∧
              span.start ≤ report.span.start ∧
              (span.stop = text.utf8ByteSize ∨
                  IsStraight element state.lexer (parse.tree.kindsBelow id) →
                report.span.start ≤ span.stop))
        parse.tree.errorNodes (fileMishaps text limit) := by
  obtain ⟨tree, hparse, -, -⟩ := parseWith_eq h limit
  have hhouses : tree.Houses (fileShape text limit) :=
    Tree.houses_node (assemble_of_parseWith hparse)
  have htells := tells_fileReading text limit
  obtain ⟨hlength, hpairs⟩ := List.forall₂_iff_zip.mp hhouses.forall₂_skipped
  refine ⟨_, hparse, List.forall₂_iff_zip.mpr ⟨hlength, ?_⟩⟩
  rintro id _ hzip element state reading rfl
  have hmem := (List.of_mem_zip hzip).2
  have hfailed : Failed text element state reading := htells.holds _ hmem
  obtain ⟨hspan, hkinds⟩ := hpairs hzip element state reading rfl
  obtain ⟨report, hreport, hstart, hsize⟩ := hfailed.exists_report
  simp only [hspan, hkinds]
  refine ⟨hfailed, trivial, report, mem_reports (htells.reports _ hmem report hreport), ?_,
    hstart, ?_⟩
  · show reading.reports.head?.toList = [report]
    rw [hreport]
    rfl
  · rintro (hend | hstraight)
    · rwa [hend]
    · obtain ⟨found, hfound, hbefore⟩ := hfailed.report_le_of_isStraight hstraight
      obtain rfl := Option.some.inj (hreport.symm.trans hfound)
      exact hbefore

theorem exists_mem_zip {α β : Type} {xs : List α} {ys : List β} (h : xs.length = ys.length) {y : β}
    (hy : y ∈ ys) : ∃ x, (x, y) ∈ xs.zip ys := by
  have hsnd : (xs.zip ys).map Prod.snd = ys := List.map_snd_zip (Nat.le_of_eq h.symm)
  rw [← hsnd] at hy
  obtain ⟨⟨x, _⟩, hmem, rfl⟩ := List.mem_map.mp hy
  exact ⟨x, hmem⟩

def brokenLine : String :=
  "class A \x7bstates \x7bTNT1 A 5 f(x y); stop;\x7d\x7d"

def keepsToHead : Mishap Rule → Bool
  | .refused _ => false
  | .lost _ state reading =>
    let kinds := (Shape.tokensAll (Reading.skipped state reading).shapes).map (·.kind)
    let frames := state.lexer.atFrames
    Kind.ending kinds == .semicolon &&
      (Kind.head kinds).all (fun kind => !Ending.semicolon.barred.contains kind) &&
      frames.current.text.toList.head? != some '"' &&
      frames.next.rest.head? != some '+' && frames.next.rest.head? != some '-'

/-- What is checked of a mishap makes its element straight. -/
theorem isStraight_of_keepsToHead {mishap : Mishap Rule} (h : keepsToHead mishap = true) :
    ∃ element state reading, mishap = .lost element state reading ∧
      IsStraight element state.lexer (mishap.tokens.map (·.kind)) := by
  cases mishap with
  | refused tokens => cases h
  | lost element state reading =>
    simp only [keepsToHead, Bool.and_eq_true, beq_iff_eq, bne_iff_ne, List.all_eq_true,
      Bool.not_eq_true'] at h
    obtain ⟨⟨⟨⟨hending, hkinds⟩, hquote⟩, hplus⟩, hminus⟩ := h
    refine ⟨element, state, reading, rfl, fun _ => ?_, fun _ => ?_, fun _ hslips => ?_⟩
    · rw [Mishap.tokens, hending]
      exact hkinds
    · rw [Mishap.tokens, hending]
      intro hbrace
      cases hbrace
    · rcases hslips.marked with h | h | h
      · exact hquote h
      · exact hplus h
      · exact hminus h

/-- The line is skipped up to its semicolon, and its report is about the second argument. -/
theorem brokenLine_localized : brokenLine.utf8ByteSize < 2 ^ 32 ∧
    ∃ parse, parseWith brokenLine 8 = .ok parse ∧
      ∃ id ∈ parse.tree.errorNodes, ∃ element lexer, ∃ report ∈ parse.diagnostics,
        IsStraight element lexer (parse.tree.kindsBelow id) ∧
        (parse.tree.nodeSpan id).start ≤ report.span.start ∧
        report.span.start ≤ (parse.tree.nodeSpan id).stop := by
  have hsize : brokenLine.utf8ByteSize < 2 ^ 32 := by decide
  refine ⟨hsize, ?_⟩
  obtain ⟨parse, hparse, hall⟩ := errors_localized hsize 8
  have hhouses := Tree.houses_node (assemble_of_parseWith hparse)
  have hlost : (fileMishaps brokenLine 8).any keepsToHead = true := by decide +kernel
  obtain ⟨mishap, hmem, hmishap⟩ := List.any_eq_true.mp hlost
  obtain ⟨element, state, reading, rfl, hstraight⟩ := isStraight_of_keepsToHead hmishap
  obtain ⟨hlength, hpairs⟩ := List.forall₂_iff_zip.mp hall
  obtain ⟨id, hzip⟩ := exists_mem_zip hlength hmem
  obtain ⟨-, hkinds⟩ :=
    (List.forall₂_iff_zip.mp hhouses.forall₂_skipped).2 hzip element state reading rfl
  rw [← hkinds] at hstraight
  obtain ⟨-, -, report, hreport, -, hstart, hstop⟩ := hpairs hzip element state reading rfl
  exact ⟨parse, hparse, id, (List.of_mem_zip hzip).1, element, state.lexer, report, hreport,
    hstraight, hstart, hstop (Or.inr hstraight)⟩

/-- The report of a mishap starts within a node of the tree. -/
def Tree.Surrounds (tree : Tree) (id : NodeId) (mishap : Mishap Rule) : Prop :=
  ∀ report ∈ mishap.report?, (tree.nodeSpan id).start ≤ report.span.start ∧
    report.span.start ≤ (tree.nodeSpan id).stop

instance (tree : Tree) (id : NodeId) (mishap : Mishap Rule) :
    Decidable (tree.Surrounds id mishap) :=
  inferInstanceAs (Decidable (∀ report ∈ mishap.report?, _))

def reportsBehind : Mishap Rule → Bool
  | .lost _ state reading => reading.reports.head?.any fun report =>
      (Reading.skipped state reading).lexer.start.offset < report.span.start
  | .refused _ => false

/-- A report behind its node keeps the error nodes from surrounding their reports. -/
theorem not_surrounded {text : String} {limit : Nat}
    (hbehind : (fileMishaps text limit).any reportsBehind = true) {parse : Parse}
    (hparse : parseWith text limit = .ok parse) :
    ¬ List.Forall₂ parse.tree.Surrounds parse.tree.errorNodes (fileMishaps text limit) := by
  intro hall
  have hhouses : parse.tree.Houses (fileShape text limit) :=
    Tree.houses_node (assemble_of_parseWith hparse)
  obtain ⟨mishap, hmem, hmishap⟩ := List.any_eq_true.mp hbehind
  obtain ⟨hlength, hpairs⟩ := List.forall₂_iff_zip.mp hall
  obtain ⟨id, hzip⟩ := exists_mem_zip hlength hmem
  cases mishap with
  | refused tokens => cases hmishap
  | lost element state reading =>
    obtain ⟨hspan, -⟩ :=
      (List.forall₂_iff_zip.mp hhouses.forall₂_skipped).2 hzip element state reading rfl
    obtain ⟨report, hreport, hlt⟩ : ∃ report, reading.reports.head? = some report ∧
        decide ((Reading.skipped state reading).lexer.start.offset < report.span.start) = true := by
      simpa [reportsBehind, Option.any_eq_true] using hmishap
    have hstop := (hpairs hzip report hreport).2
    rw [hspan] at hstop
    exact absurd hstop (Nat.not_le.mpr (of_decide_eq_true hlt))

def brokenLoop : String :=
  "void f()\x7bfor(a;b c;d)\x7b\x7d\x7d"

/-- The loop is skipped up to its first semicolon, and its report is about what comes behind. -/
theorem brokenLoop_not_surrounded : ¬ ∀ (text : String) (limit : Nat) (parse : Parse),
    parseWith text limit = .ok parse →
    List.Forall₂ parse.tree.Surrounds parse.tree.errorNodes (fileMishaps text limit) := by
  intro hall
  obtain ⟨tree, hparse, -, -⟩ :=
    parseWith_eq (show brokenLoop.utf8ByteSize < UInt32.size by decide) 8
  have hbehind : (fileMishaps brokenLoop 8).any reportsBehind = true := by decide +kernel
  exact not_surrounded hbehind hparse (hall _ _ _ hparse)

def brokenTails : List String :=
  ["void f()\x7bif(a)b;else c d e;\x7d", "void f()\x7bdo a;while(b c);\x7d",
    "void f()\x7bif(a)\x7b\x7delse c d e;\x7d", "void f()\x7bdo\x7b\x7dwhile(b c);\x7d",
    "int x[]=\x7b1\x7d,y z;", "class A\x7bint x[]=\x7b1\x7d,y z;\x7d",
    "void f()\x7bint x[]=\x7b1\x7d,y z;\x7d",
    "class A\x7bstates\x7bTNT1 \"é\";5 f(x y);\x7d\x7d",
    "class A\x7bstates\x7bTNT1 1E+5e5'6 f(';', x y);\x7d\x7d"]

/-- None of the heads that are not straight can be left out. -/
theorem brokenTails_not_surrounded : ∀ text ∈ brokenTails, ∀ parse, parseWith text 8 = .ok parse →
    ¬ List.Forall₂ parse.tree.Surrounds parse.tree.errorNodes (fileMishaps text 8) := by
  have hbehind : ∀ text ∈ brokenTails, (fileMishaps text 8).any reportsBehind = true := by
    decide +kernel
  exact fun text hmem parse hparse => not_surrounded (hbehind text hmem) hparse

end ScriptTree

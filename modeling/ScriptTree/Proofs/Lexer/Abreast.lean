import Mathlib.Data.List.Pairwise
import ScriptTree.Proofs.Lexer.Angle
import ScriptTree.Proofs.Lexer.Fault

/-!
Positions abreast. Two positions, each in a text of its own, are abreast if ordinary reading finds
the same tokens from there on, with layout behind a token in one text exactly where there is some in
the other. What that layout is does not matter.

Reading `>` on its own breaks such a run of tokens up: what is left of `>>=` is read as another
operator, which may take further characters along. It takes none but `>` and `=`, and these stand
side by side in both texts up to the same place, so the positions behind `>` are abreast again.
-/

namespace ScriptTree

open Text

/-- No layout is left behind that of a token. -/
theorem layout_lex (mode : LexMode) (preceding : Kind) (start : Cursor) :
    layout (lex mode preceding start).2 = ⟨[], none, (lex mode preceding start).2⟩ :=
  layout_of_none (stretch?_layout _)

theorem after_of_isEmpty {start : Cursor} (h : (layout start).pieces.isEmpty = true) :
    (layout start).after = start := by
  cases hs : stretch? start.rest with
  | none => rw [layout_of_none hs]
  | some stretch =>
    rw [layout_of_some hs] at h
    cases h

namespace Cursor

/-- The tokens that are found at two positions cannot be told apart, and both or neither have layout
behind them. -/
structure Paired (found found' : Scan) (a b : Cursor) : Prop where
  kind : found'.kind = found.kind
  fault : found'.fault = found.fault
  spelling : b.peek found'.size = a.peek found.size
  glued : (layout (b.skip found'.size)).pieces.isEmpty = (layout (a.skip found.size)).pieces.isEmpty
  closed : (layout (a.skip found.size)).error = none
  closed' : (layout (b.skip found'.size)).error = none

def marksFrom (offset offset' : Nat) : List Char → List (Nat × Nat)
  | [] => []
  | c :: rest => (offset, offset') :: marksFrom (offset + c.utf8Size) (offset' + c.utf8Size) rest

/-- Two positions from which ordinary reading finds the same tokens. The marks are the offsets of
the characters of these tokens, and that of the end, in either text. -/
inductive Abreast : Kind → Cursor → Cursor → List (Nat × Nat) → Prop where
  | ended {preceding : Kind} {a b : Cursor} (left : a.rest = []) (right : b.rest = []) :
      Abreast preceding a b [(a.offset, b.offset)]
  | token {preceding : Kind} {a b : Cursor} {found found' : Scan} {marks : List (Nat × Nat)}
      (left : a.rest ≠ []) (right : b.rest ≠ []) (read : scan .plain preceding a.rest = found)
      (read' : scan .plain preceding b.rest = found') (first : Paired found found' a b)
      (rest : Abreast found.kind (layout (a.skip found.size)).after
        (layout (b.skip found'.size)).after marks) :
      Abreast preceding a b (marksFrom a.offset b.offset (a.peek found.size) ++ marks)

theorem peek_scan_ne_nil {cursor : Cursor} (h : cursor.rest ≠ []) (mode : LexMode)
    (preceding : Kind) : cursor.peek (scan mode preceding cursor.rest).size ≠ [] := by
  have hpos := (scan_isFull mode preceding h).2
  rw [peek, ne_eq, List.take_eq_nil_iff]
  rintro (hzero | hnil)
  · omega
  · exact h hnil

theorem marksFrom_append (offset offset' : Nat) (front back : List Char) :
    marksFrom offset offset' (front ++ back) = marksFrom offset offset' front ++
      marksFrom (offset + byteCount front) (offset' + byteCount front) back := by
  induction front generalizing offset offset' with
  | nil => rfl
  | cons c front ih =>
    rw [List.cons_append, marksFrom, ih, marksFrom, List.cons_append, byteCount_cons, Nat.add_assoc,
      Nat.add_assoc]

/-- The marks of characters lie where the characters do. -/
theorem mem_marksFrom {offset offset' : Nat} {chars : List Char} {mark : Nat × Nat}
    (h : mark ∈ marksFrom offset offset' chars) :
    (offset ≤ mark.1 ∧ mark.1 < offset + byteCount chars) ∧
      (offset' ≤ mark.2 ∧ mark.2 < offset' + byteCount chars) := by
  induction chars generalizing offset offset' with
  | nil => cases h
  | cons c rest ih =>
    have hpos := c.utf8Size_pos
    rw [byteCount_cons]
    rcases List.mem_cons.mp h with rfl | h
    · omega
    · have hrest := ih h
      omega

def Ascend (marks : List (Nat × Nat)) : Prop :=
  marks.Pairwise fun a b => a.1 < b.1 ∧ a.2 < b.2

theorem ascend_marksFrom (offset offset' : Nat) (chars : List Char) :
    Ascend (marksFrom offset offset' chars) := by
  induction chars generalizing offset offset' with
  | nil => exact .nil
  | cons c rest ih =>
    have hpos := c.utf8Size_pos
    refine .cons (fun mark hmark => ?_) (ih _ _)
    have hbounds := mem_marksFrom hmark
    omega

theorem Ascend.le_iff {marks : List (Nat × Nat)} (h : Ascend marks) {a b : Nat × Nat}
    (ha : a ∈ marks) (hb : b ∈ marks) : a.2 ≤ b.2 ↔ a.1 ≤ b.1 := by
  have hup : marks.Pairwise fun a b => a.2 ≤ b.2 ↔ a.1 ≤ b.1 := h.imp (by omega)
  have hdown : marks.Pairwise fun a b => b.2 ≤ a.2 ↔ b.1 ≤ a.1 := h.imp (by omega)
  exact hup.forall_of_forall_of_flip (by simp) hdown ha hb

namespace Abreast

variable {preceding : Kind} {a b : Cursor} {marks : List (Nat × Nat)}

/-- Positions abreast have their marks in order, and behind both of them. -/
theorem ascend (h : Abreast preceding a b marks) :
    Ascend marks ∧ ∀ mark ∈ marks, a.offset ≤ mark.1 ∧ b.offset ≤ mark.2 := by
  induction h with
  | @ended preceding a b left right =>
    refine ⟨List.pairwise_singleton _ _, fun mark hmark => ?_⟩
    rw [List.mem_singleton.mp hmark]
    exact ⟨Nat.le_refl _, Nat.le_refl _⟩
  | @token preceding a b found found' marks left right read read' first rest ih =>
    -- what comes later lies behind the token in both texts
    have hskip := (a.passes_skip found.size).2
    have hskip' := (b.passes_skip found'.size).2
    rw [first.spelling] at hskip'
    obtain ⟨chars, hlayout⟩ := (layout_laid (a.skip found.size)).passes
    obtain ⟨chars', hlayout'⟩ := (layout_laid (b.skip found'.size)).passes
    have hle := hlayout.offset_le
    have hle' := hlayout'.offset_le
    refine ⟨List.pairwise_append.mpr ⟨ascend_marksFrom _ _ _, ih.1, ?_⟩, ?_⟩
    · intro mark hmark later hlater
      have hbounds := mem_marksFrom hmark
      have hlater := ih.2 later hlater
      omega
    · intro mark hmark
      rcases List.mem_append.mp hmark with hmark | hmark
      · have hbounds := mem_marksFrom hmark
        omega
      · have hlater := ih.2 mark hmark
        omega

theorem mem_marks (h : Abreast preceding a b marks) : (a.offset, b.offset) ∈ marks := by
  cases h with
  | ended left right => exact List.mem_singleton_self _
  | token left right read read' first rest =>
    have hne := peek_scan_ne_nil left .plain preceding
    rw [read] at hne
    obtain ⟨c, chars, hspelling⟩ := List.exists_cons_of_ne_nil hne
    rw [hspelling]
    exact List.mem_cons_self

/-- The same character stands at both positions. -/
theorem head?_eq (h : Abreast preceding a b marks) : b.rest.head? = a.rest.head? := by
  cases h with
  | ended left right => rw [left, right]
  | @token _ _ _ found found' _ left right read read' first rest =>
    have hne := peek_scan_ne_nil left .plain preceding
    rw [read] at hne
    rw [(a.passes_skip found.size).1, (b.passes_skip found'.size).1, first.spelling,
      List.head?_append_of_ne_nil _ hne, List.head?_append_of_ne_nil _ hne]

theorem congr {preceding' : Kind} (h : Abreast preceding a b marks)
    (hends : preceding'.endsOperand = preceding.endsOperand) : Abreast preceding' a b marks := by
  cases h with
  | ended left right => exact .ended left right
  | token left right read read' first rest =>
    have hscan (chars : List Char) := scan_congr .plain hends chars
    exact .token left right ((hscan _).trans read) ((hscan _).trans read') first rest

end Abreast

structure Resumes (a b : Cursor) (marks : List (Nat × Nat)) : Prop where
  outside : a.rest.head?.any isAngle = false
  outside' : b.rest.head?.any isAngle = false
  glued : (layout b).pieces.isEmpty = (layout a).pieces.isEmpty
  closed : (layout a).error = none
  closed' : (layout b).error = none
  abreast : Abreast .gt (layout a).after (layout b).after marks

theorem layout_run {a stop : Cursor} {run : List Char} (hpasses : a.Passes run stop)
    (hrun : run.all isAngle = true) (hne : run ≠ []) : layout a = ⟨[], none, a⟩ := by
  refine layout_angle ?_
  obtain ⟨c, rest, rfl⟩ := List.exists_cons_of_ne_nil hne
  rw [hpasses.1]
  exact (List.all_eq_true.mp hrun) c List.mem_cons_self

section Run

variable {stop stop' a b : Cursor} {later : List (Nat × Nat)}

/-- Where the same token is found in front of what is left of a run, reading goes on alike behind
it, be it within the run or behind its end. -/
theorem Resumes.behind (hresumes : Resumes stop stop' later) {front back : List Char}
    (ha : a.Passes (front ++ back) stop) (hb : b.Passes (front ++ back) stop')
    (hback : back.all isAngle = true) {found : Scan} (hends : found.kind.endsOperand = false)
    (hfront : a.peek found.size = front) (hfront' : b.peek found.size = front)
    (hrun : back ≠ [] → ∀ c d : Cursor, c.Passes back stop → d.Passes back stop' →
      Abreast found.kind c d (marksFrom c.offset d.offset back ++ later)) :
    Paired found found a b ∧ Abreast found.kind (layout (a.skip found.size)).after
      (layout (b.skip found.size)).after
      (marksFrom (a.skip found.size).offset (b.skip found.size).offset back ++ later) := by
  have hspelling : b.peek found.size = a.peek found.size := by rw [hfront, hfront']
  have hrest : (a.skip found.size).Passes back stop := by
    refine (a.passes_skip found.size).cancel ?_
    rwa [hfront]
  have hrest' : (b.skip found.size).Passes back stop' := by
    refine (b.passes_skip found.size).cancel ?_
    rwa [hfront']
  by_cases hne : back = []
  · -- the run ends with the token
    subst hne
    obtain rfl := hrest.eq_of_nil
    obtain rfl := hrest'.eq_of_nil
    refine ⟨⟨rfl, rfl, hspelling, hresumes.glued, hresumes.closed, hresumes.closed'⟩, ?_⟩
    exact hresumes.abreast.congr hends
  · -- no layout stands within the run
    have hlayout := layout_run hrest hback hne
    have hlayout' := layout_run hrest' hback hne
    refine ⟨⟨rfl, rfl, hspelling, ?_, ?_, ?_⟩, ?_⟩
    · rw [hlayout, hlayout']
    · rw [hlayout]
    · rw [hlayout']
    · rw [hlayout, hlayout']
      exact hrun hne _ _ hrest hrest'

/-- Positions in front of the same run of `>` and `=` are abreast, whatever the run is cut into. -/
theorem Resumes.abreast_run (hresumes : Resumes stop stop' later) {run : List Char}
    (hrun : run.all isAngle = true) (hne : run ≠ []) (ha : a.Passes run stop)
    (hb : b.Passes run stop') (preceding : Kind) :
    Abreast preceding a b (marksFrom a.offset b.offset run ++ later) := by
  -- the first token of the run is the same in both texts, and what it leaves of the run is shorter
  induction hlength : run.length using Nat.strong_induction_on generalizing run a b preceding with
  | _ length ih =>
    let found := Scan.symbol run
    let front := run.take found.size
    let back := run.drop found.size
    have hsplit : run = front ++ back := (List.take_append_drop _ _).symm
    have hback : back.all isAngle = true := by
      rw [hsplit, List.all_append, Bool.and_eq_true] at hrun
      exact hrun.2
    have hshort : back.length < length := by
      have hpos : 0 < found.size := (Scan.symbol_isFull run).2
      have hnonempty := List.length_pos_iff.mpr hne
      rw [List.length_drop]
      omega
    have hread {c d : Cursor} (hc : c.Passes run d) (hd : d.rest.head?.any isAngle = false) :
        scan .plain preceding c.rest = found ∧ c.peek found.size = front := by
      obtain ⟨hplain, hsize, -⟩ := Scan.plain_run hrun hne hd preceding
      rw [peek, hc.1]
      exact ⟨hplain, List.take_append_of_le_length hsize⟩
    obtain ⟨hscan, hfront⟩ := hread ha hresumes.outside
    obtain ⟨hscan', hfront'⟩ := hread hb hresumes.outside'
    have hends := (Scan.plain_run hrun hne hresumes.outside preceding).2.2
    obtain ⟨hpaired, hafter⟩ := hresumes.behind (hsplit ▸ ha) (hsplit ▸ hb) hback hends hfront
      hfront' fun hne' c d hc hd => ih back.length hshort hback hne' hc hd _ rfl
    have hleft : a.rest ≠ [] := by simp [ha.1, hne]
    have hright : b.rest ≠ [] := by simp [hb.1, hne]
    have htoken := Abreast.token hleft hright hscan hscan' hpaired hafter
    have hmarks : marksFrom a.offset b.offset run =
        marksFrom a.offset b.offset (a.peek found.size) ++
          marksFrom (a.skip found.size).offset (b.skip found.size).offset back := by
      rw [(a.passes_skip found.size).2, (b.passes_skip found.size).2, hpaired.spelling,
        ← marksFrom_append, hfront, ← hsplit]
    rwa [hmarks, List.append_assoc]

end Run

namespace Abreast

variable {preceding : Kind} {a b : Cursor} {marks : List (Nat × Nat)}

/-- Positions abreast before `>` or `=` stand before the same run of these characters. -/
theorem exists_run (h : Abreast preceding a b marks) (hangle : a.rest.head?.any isAngle = true) :
    ∃ run stop stop' later, run.all isAngle = true ∧ a.Passes run stop ∧ b.Passes run stop' ∧
      Resumes stop stop' later ∧ marks = marksFrom a.offset b.offset run ++ later := by
  induction h with
  | ended left right =>
    rw [left] at hangle
    cases hangle
  | @token preceding a b found found' marks left right read read' first rest ih =>
    obtain ⟨hall, hends⟩ := peek_angle hangle preceding
    rw [read] at hall hends
    have ha := a.passes_skip found.size
    have hb := b.passes_skip found'.size
    rw [first.spelling] at hb
    by_cases hmore : (a.skip found.size).rest.head?.any isAngle = true
    · -- the run goes on, in the other text too since no layout can stand there
      have hlayout := layout_angle hmore
      have hafter' : (layout (b.skip found'.size)).after = b.skip found'.size := by
        refine after_of_isEmpty ?_
        rw [first.glued, hlayout]
        rfl
      rw [hlayout, hafter'] at ih
      obtain ⟨run, stop, stop', later, hrun, hpasses, hpasses', hresumes, hmarks⟩ := ih hmore
      refine ⟨a.peek found.size ++ run, stop, stop', later, ?_, ha.trans hpasses,
        hb.trans hpasses', hresumes, ?_⟩
      · rw [List.all_append, hall, hrun]
        rfl
      · rw [marksFrom_append, ← ha.2, ← hb.2, List.append_assoc, ← hmarks]
    · have houtside : (a.skip found.size).rest.head?.any isAngle = false := by
        simpa using hmore
      have houtside' : (b.skip found'.size).rest.head?.any isAngle = false := by
        -- a run that went on here would go on in the first text
        by_contra hmore'
        have hlayout' := layout_angle (Bool.eq_true_of_not_eq_false hmore')
        have hafter : (layout (a.skip found.size)).after = a.skip found.size := by
          refine after_of_isEmpty ?_
          rw [← first.glued, hlayout']
          rfl
        rw [hafter, hlayout'] at rest
        rw [rest.head?_eq] at hmore'
        exact hmore' houtside
      exact ⟨a.peek found.size, _, _, marks, hall, ha, hb, ⟨houtside, houtside', first.glued,
        first.closed, first.closed', rest.congr hends.symm⟩, rfl⟩

/-- Positions abreast stay so behind a `>` that is read on its own. -/
theorem angle (h : Abreast preceding a b marks) (hhead : a.rest.head? = some '>') :
    Paired (.sound .gt 1) (.sound .gt 1) a b ∧ ∃ later ⊆ marks,
      Abreast .gt (layout (a.skip 1)).after (layout (b.skip 1)).after later := by
  have hangle : a.rest.head?.any isAngle = true := by
    rw [hhead]
    rfl
  obtain ⟨run, stop, stop', later, hrun, ha, hb, hresumes, hmarks⟩ := h.exists_run hangle
  -- both texts go on with the same run behind the `>`
  obtain ⟨back, rfl⟩ : ∃ back, run = '>' :: back := by
    cases run with
    | nil =>
      rw [ha.eq_of_nil] at hresumes
      cases hangle.symm.trans hresumes.outside
    | cons c back =>
      rw [ha.1] at hhead
      obtain rfl := Option.some.inj hhead
      exact ⟨back, rfl⟩
  have hback : back.all isAngle = true := (Bool.and_eq_true_iff.mp hrun).2
  have hfront : a.peek 1 = ['>'] := by
    rw [peek, ha.1]
    rfl
  have hfront' : b.peek 1 = ['>'] := by
    rw [peek, hb.1]
    rfl
  obtain ⟨hpaired, hafter⟩ : Paired (.sound .gt 1) (.sound .gt 1) a b ∧ _ :=
    hresumes.behind ha hb hback rfl hfront hfront'
      fun hne c d hc hd => hresumes.abreast_run hback hne hc hd _
  have hskip := (a.passes_skip 1).2
  have hskip' := (b.passes_skip 1).2
  rw [hfront] at hskip
  rw [hfront'] at hskip'
  refine ⟨hpaired, _, ?_, hafter⟩
  rw [hmarks, Scan.sound, hskip, hskip']
  exact List.subset_cons_self _ _

/-- The end of the text is read again and again. -/
theorem ended_step (left : a.rest = []) (right : b.rest = []) {found : Scan}
    (hfound : found = .sound .eof 0) :
    Paired found found a b ∧ Abreast found.kind (layout (a.skip found.size)).after
      (layout (b.skip found.size)).after [(a.offset, b.offset)] := by
  have hend {c : Cursor} (hc : c.rest = []) : layout (c.skip found.size) = ⟨[], none, c⟩ := by
    have hstretch : stretch? c.rest = none := by
      rw [hc]
      rfl
    rw [hfound]
    exact layout_of_none hstretch
  have hspelling : b.peek found.size = a.peek found.size := by
    rw [peek, peek, left, right]
  have hlayout := hend left
  have hlayout' := hend right
  refine ⟨⟨rfl, rfl, hspelling, ?_, ?_, ?_⟩, ?_⟩
  · rw [hlayout, hlayout']
  · rw [hlayout]
  · rw [hlayout']
  · rw [hlayout, hlayout']
    exact .ended left right

/-- The tokens at positions abreast are the same, also with `>` read on its own, and the positions
behind them are abreast. -/
theorem step (h : Abreast preceding a b marks) {mode : LexMode}
    (hmode : mode = .plain ∨ mode = .angle) {found found' : Scan}
    (hfound : scan mode preceding a.rest = found) (hfound' : scan mode preceding b.rest = found') :
    Paired found found' a b ∧ ∃ later ⊆ marks, Abreast found.kind
      (layout (a.skip found.size)).after (layout (b.skip found'.size)).after later := by
  by_cases hhead : mode = .angle ∧ a.rest.head? = some '>'
  · obtain ⟨rfl, hhead⟩ := hhead
    rw [scan_angle hhead] at hfound
    rw [scan_angle (h.head?_eq.trans hhead)] at hfound'
    subst hfound hfound'
    exact h.angle hhead
  · -- without a `>` in front both modes read the same token
    have hplain {c : Cursor} (hc : c.rest.head? = a.rest.head?) :
        scan mode preceding c.rest = scan .plain preceding c.rest := by
      rcases hmode with rfl | rfl
      · rfl
      · exact scan_angle_of_ne (fun hgt => hhead ⟨rfl, hc.symm.trans hgt⟩) preceding
    rw [hplain rfl] at hfound
    rw [hplain h.head?_eq] at hfound'
    cases h with
    | ended left right =>
      rw [left, scan_nil] at hfound
      rw [right, scan_nil, hfound] at hfound'
      subst hfound'
      obtain ⟨hpaired, hafter⟩ := ended_step left right hfound.symm
      exact ⟨hpaired, _, List.Subset.refl _, hafter⟩
    | token left right read read' first rest =>
      obtain rfl := read.symm.trans hfound
      obtain rfl := read'.symm.trans hfound'
      exact ⟨first, _, List.subset_append_right _ _, rest⟩

end Abreast

end Cursor

def Token.face (token : Token) : Kind × String × Bool :=
  (token.kind, token.text, token.trailing.isEmpty)

namespace Lexer

open Cursor

/-- Tokens that look alike from all sides, and lie next to no open comment, were found alike. -/
theorem paired_of_face {preceding : Kind} {start start' : Cursor}
    (hface : (lex .plain preceding start').1.face = (lex .plain preceding start).1.face)
    (hclosed : (lex .plain preceding start).1.Closed)
    (hclosed' : (lex .plain preceding start').1.Closed) :
    Paired (scan .plain preceding (layout start).after.rest)
      (scan .plain preceding (layout start').after.rest) (layout start).after
      (layout start').after := by
  simp only [Token.face, Prod.mk.injEq] at hface
  obtain ⟨hkind, htext, hglued⟩ := hface
  have hspelling := String.ofList_injective htext
  have hfault (chars : List Char) : (scan .plain preceding chars).fault =
      Scan.faultOf (chars.take (scan .plain preceding chars).size) :=
    Scan.plain_fault preceding chars
  refine ⟨hkind, ?_, hspelling, hglued, (closed_of_lex hclosed).2, (closed_of_lex hclosed').2⟩
  calc (scan .plain preceding (layout start').after.rest).fault
      = Scan.faultOf ((layout start').after.peek
          (scan .plain preceding (layout start').after.rest).size) := hfault _
    _ = Scan.faultOf ((layout start).after.peek
          (scan .plain preceding (layout start).after.rest).size) := congrArg _ hspelling
    _ = (scan .plain preceding (layout start).after.rest).fault := (hfault _).symm

theorem collect_succ (lexer : Lexer) (limit : Nat) : lexer.collect (limit + 1) =
    lexer.current :: if lexer.current.kind = .eof then [] else lexer.advance.collect limit := by
  rw [collect]
  split <;> rfl

/-- Positions from which the same tokens are read are abreast. -/
theorem exists_abreast {limit limit' : Nat} {start start' : Cursor} {preceding : Kind}
    (hlimit : start.rest.length < limit) (hlimit' : start'.rest.length < limit')
    (hface : ((place start' .plain preceding).collect limit').map Token.face =
      ((place start .plain preceding).collect limit).map Token.face)
    (hclosed : ∀ token ∈ (place start .plain preceding).collect limit, token.Closed)
    (hclosed' : ∀ token ∈ (place start' .plain preceding).collect limit', token.Closed) :
    ∃ marks, Abreast preceding (layout start).after (layout start').after marks := by
  induction limit generalizing limit' start start' preceding with
  | zero => omega
  | succ limit ih =>
    obtain ⟨limit', rfl⟩ := Nat.exists_eq_add_one_of_ne_zero (Nat.ne_zero_of_lt hlimit')
    let first := (layout start).after
    let first' := (layout start').after
    rw [collect_succ] at hface hclosed
    rw [collect_succ] at hface hclosed'
    rw [List.map_cons, List.map_cons, List.cons.injEq] at hface
    have hpaired : Paired (scan .plain preceding first.rest) (scan .plain preceding first'.rest)
        first first' :=
      paired_of_face hface.1 (hclosed _ List.mem_cons_self) (hclosed' _ List.mem_cons_self)
    by_cases hkind : (scan .plain preceding first.rest).kind = .eof
    · have hkind' : (scan .plain preceding first'.rest).kind = .eof := hpaired.kind.trans hkind
      exact ⟨_, .ended ((scan_kind_eq_eof_iff _ _ _).mp hkind)
        ((scan_kind_eq_eof_iff _ _ _).mp hkind')⟩
    · have hkind' : (scan .plain preceding first'.rest).kind ≠ .eof := by rwa [hpaired.kind]
      have hcurrent : (place start .plain preceding).current.kind ≠ .eof := hkind
      have hcurrent' : (place start' .plain preceding).current.kind ≠ .eof := hkind'
      have hshort := lex_length_lt hcurrent
      have hshort' := lex_length_lt hcurrent'
      rw [if_neg hcurrent] at hface hclosed
      rw [if_neg hcurrent'] at hface hclosed'
      have hadvance : (place start' .plain preceding).advance =
          place (place start' .plain preceding).next .plain
            (place start .plain preceding).current.kind := congrArg (place _ .plain) hpaired.kind
      rw [hadvance] at hface hclosed'
      obtain ⟨marks, hrest⟩ := ih (Nat.lt_of_lt_of_le hshort (Nat.le_of_lt_succ hlimit))
        (Nat.lt_of_lt_of_le hshort' (Nat.le_of_lt_succ hlimit')) hface.2
        (fun token hmem => hclosed token (List.mem_cons_of_mem _ hmem))
        (fun token hmem => hclosed' token (List.mem_cons_of_mem _ hmem))
      rw [layout_lex, layout_lex] at hrest
      have hleft : first.rest ≠ [] := mt (scan_kind_eq_eof_iff _ _ _).mpr hkind
      have hright : first'.rest ≠ [] := mt (scan_kind_eq_eof_iff _ _ _).mpr hkind'
      exact ⟨_, .token hleft hright rfl rfl hpaired hrest⟩

end Lexer

end ScriptTree

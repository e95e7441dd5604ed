import ScriptTree.Proofs.Lexer.Fault
import ScriptTree.Proofs.Lexer.LineEnd

/-!
Carriage returns in front of line breaks. A lexer that reads a text with them comes to the same
places as one that reads the text without them, up to a carriage return that it may have read
already as white space, as a part of a comment or of a literal that is left open. The exception is a
literal with a backslash at the end of a line: the backslash takes the carriage return along, and
the line break ends the literal.
-/

namespace ScriptTree

namespace Text

def crlf (chars : List Char) : List Char :=
  chars.flatMap fun c => if c = '\n' then ['\r', '\n'] else [c]

@[simp] theorem crlf_nil : crlf [] = [] :=
  rfl

@[simp] theorem crlf_newline (rest : List Char) : crlf ('\n' :: rest) = '\r' :: '\n' :: crlf rest :=
  rfl

theorem crlf_cons {c : Char} (hc : c ≠ '\n') (rest : List Char) :
    crlf (c :: rest) = c :: crlf rest := by
  rw [crlf, List.flatMap_cons, if_neg hc]
  rfl

theorem crlf_append (chars later : List Char) : crlf (chars ++ later) = crlf chars ++ crlf later :=
  List.flatMap_append

theorem crlf_of_notMem {chars : List Char} (h : '\n' ∉ chars) : crlf chars = chars := by
  induction chars with
  | nil => rfl
  | cons c rest ih =>
    obtain ⟨hc, hrest⟩ := not_or.mp (mt List.mem_cons.mpr h)
    rw [crlf_cons (Ne.symm hc), ih hrest]

/-- What comes first is the same, but for a line break. -/
theorem exists_of_crlf_eq_cons {chars tail : List Char} {d : Char} (h : crlf chars = d :: tail)
    (hd : d ≠ '\r') : d ≠ '\n' ∧ ∃ rest, chars = d :: rest := by
  cases chars with
  | nil => cases h
  | cons c rest =>
    by_cases hc : c = '\n'
    · subst hc
      exact absurd (List.cons.inj h).1.symm hd
    · rw [crlf_cons hc] at h
      obtain ⟨rfl, -⟩ := List.cons.inj h
      exact ⟨hc, rest, rfl⟩

def InStep (chars chars' : List Char) : Prop :=
  chars' = crlf chars ∨ ∃ rest, chars = '\n' :: rest ∧ chars' = '\n' :: crlf rest

variable {chars : List Char}

/-- A run that ends at line breaks at the latest, and takes carriage returns along, ends at the same
place. -/
theorem inStep_dropWhile {p : Char → Bool} (hp : p '\n' = false ∧ p '\r' = true)
    (chars : List Char) : InStep (chars.dropWhile p) ((crlf chars).dropWhile p) := by
  induction chars with
  | nil => exact Or.inl rfl
  | cons c rest ih =>
    by_cases hc : c = '\n'
    · subst hc
      refine Or.inr ⟨rest, ?_, ?_⟩
      · exact List.dropWhile_cons_of_neg (Bool.eq_false_iff.mp hp.1)
      · rw [crlf_newline, List.dropWhile_cons_of_pos hp.2,
          List.dropWhile_cons_of_neg (Bool.eq_false_iff.mp hp.1)]
    · rw [crlf_cons hc]
      cases hcase : p c with
      | true => rwa [List.dropWhile_cons_of_pos hcase, List.dropWhile_cons_of_pos hcase]
      | false =>
        rw [List.dropWhile_cons_of_neg (Bool.eq_false_iff.mp hcase),
          List.dropWhile_cons_of_neg (Bool.eq_false_iff.mp hcase)]
        exact Or.inl (crlf_cons hc rest).symm

/-- Characters up to the end of their line. -/
theorem exists_line (chars : List Char) : ∃ line later, chars = line ++ later ∧ '\n' ∉ line ∧
    AtLineEnd later ∧ AtLineEnd (crlf later) := by
  induction chars with
  | nil => exact ⟨[], [], rfl, List.not_mem_nil, .ended, .ended⟩
  | cons c rest ih =>
    by_cases hc : c = '\n'
    · subst hc
      exact ⟨[], _, rfl, List.not_mem_nil, .newline rest, .carriage _⟩
    · obtain ⟨line, later, rfl, hline, hends, hends'⟩ := ih
      refine ⟨c :: line, later, rfl, ?_, hends, hends'⟩
      rw [List.mem_cons, not_or]
      exact ⟨Ne.symm hc, hline⟩

end Text

open Text

theorem commentRun_cons {c : Char} {rest : List Char}
    (hclose : ∀ more, c = '*' → rest = '/' :: more → False) :
    commentRun (c :: rest) = ((commentRun rest).1 + 1, (commentRun rest).2) := by
  rw [commentRun]
  exact hclose

/-- A block comment is as long as before, but for the carriage returns in it. -/
theorem commentRun_crlf (chars : List Char) :
    (commentRun (crlf chars)).2 = (commentRun chars).2 ∧
      (crlf chars).drop (commentRun (crlf chars)).1 = crlf (chars.drop (commentRun chars).1) := by
  fun_induction commentRun chars with
  | case1 => exact ⟨rfl, rfl⟩
  | case2 rest => exact ⟨rfl, rfl⟩
  | case3 c rest hclose size closed hrun ih =>
    rw [hrun] at ih
    by_cases hc : c = '\n'
    · subst hc
      have hother {d : Char} (hd : d ≠ '*') (more : List Char) :
          commentRun (d :: more) = ((commentRun more).1 + 1, (commentRun more).2) :=
        commentRun_cons fun _ hstar => absurd hstar hd
      rw [crlf_newline, hother (by decide), hother (by decide)]
      exact ih
    · have hclose' (more : List Char) (hstar : c = '*') (hslash : crlf rest = '/' :: more) :
          False := by
        obtain ⟨-, later, rfl⟩ := exists_of_crlf_eq_cons hslash (by decide)
        exact hclose later hstar rfl
      rw [crlf_cons hc, commentRun_cons hclose']
      exact ih

/-- Where neither a comment, a line break nor a line continuation starts, there may be white
space. -/
theorem stretch?_crlf_cons {c : Char} {tail : List Char} (hclean : '\r' ∉ c :: tail)
    (hline : ∀ more, c = '/' → tail = '/' :: more → False)
    (hblock : ∀ more, c = '/' → tail = '*' :: more → False) (hbreak : c = '\n' → False)
    (hnext : ∀ more, c = '\\' → tail = '\n' :: more → False) :
    stretch? (crlf (c :: tail)) =
      if isBlank c then
        some ⟨.whitespace, ((crlf (c :: tail)).takeWhile isInlineBlank).length, true⟩
      else none := by
  rw [crlf_cons hbreak, stretch?]
  · intro more hc ht
    obtain ⟨-, rest, rfl⟩ := exists_of_crlf_eq_cons ht (by decide)
    exact hline rest hc rfl
  · intro more hc ht
    obtain ⟨-, rest, rfl⟩ := exists_of_crlf_eq_cons ht (by decide)
    exact hblock rest hc rfl
  · exact hbreak
  · intro more hc ht
    exact (exists_of_crlf_eq_cons ht (by decide)).1 rfl
  · intro more hc ht
    cases tail with
    | nil => cases ht
    | cons d rest =>
      by_cases hd : d = '\n'
      · exact hnext rest hc (by rw [hd])
      · rw [crlf_cons hd] at ht
        obtain ⟨rfl, -⟩ := List.cons.inj ht
        exact hclean (List.mem_cons_of_mem _ List.mem_cons_self)

/-- Where no layout starts, none starts before carriage returns either. -/
theorem stretch?_crlf_none {chars : List Char} (hclean : '\r' ∉ chars)
    (h : stretch? chars = none) : stretch? (crlf chars) = none := by
  revert h
  fun_cases stretch? chars with
  | case1 | case2 | case3 | case4 | case5 | case6 =>
    intro h
    cases h
  | case7 c tail hline hblock hbreak hnext hnext' hblank =>
    intro _
    rw [stretch?_crlf_cons hclean hline hblock hbreak hnext, if_neg hblank]
  | case8 => exact id

/-- A piece of layout other than a line break ends in step. -/
theorem stretch?_crlf_some {chars : List Char} (hclean : '\r' ∉ chars)
    (hbreak : chars.head? ≠ some '\n') {stretch : Stretch} (h : stretch? chars = some stretch) :
    ∃ stretch', stretch? (crlf chars) = some stretch' ∧ stretch'.closed = stretch.closed ∧
      InStep (chars.drop stretch.size) ((crlf chars).drop stretch'.size) := by
  revert h
  fun_cases stretch? chars with
  | case1 tail =>
    rintro ⟨⟩
    have hstretch : stretch? (crlf ('/' :: '/' :: tail)) =
        some ⟨.lineComment, ((crlf ('/' :: '/' :: tail)).takeWhile (· != '\n')).length, true⟩ := rfl
    refine ⟨_, hstretch, rfl, ?_⟩
    rw [drop_length_takeWhile, drop_length_takeWhile]
    exact inStep_dropWhile (by decide) _
  | case2 rest size closed hrun =>
    rintro ⟨⟩
    have hstretch : stretch? (crlf ('/' :: '*' :: rest)) =
        some ⟨.blockComment, 2 + (commentRun (crlf rest)).1, (commentRun (crlf rest)).2⟩ := rfl
    have hmark (size : Nat) (more : List Char) :
        ('/' :: '*' :: more).drop (2 + size) = more.drop size := by
      rw [Nat.add_comm]
      rfl
    obtain ⟨hclosed, hdrop⟩ := commentRun_crlf rest
    rw [hrun] at hclosed hdrop
    refine ⟨_, hstretch, hclosed, Or.inl ?_⟩
    rw [hmark, ← hdrop]
    exact hmark _ _
  | case3 tail => exact absurd rfl hbreak
  | case4 tail =>
    rintro ⟨⟩
    exact ⟨_, rfl, rfl, Or.inl rfl⟩
  | case5 tail => exact absurd (by simp) hclean
  | case6 c tail hline hblock hnewline hnext hnext' hblank =>
    rintro ⟨⟩
    have hstretch := stretch?_crlf_cons hclean hline hblock hnewline hnext
    rw [if_pos hblank] at hstretch
    refine ⟨_, hstretch, rfl, ?_⟩
    rw [drop_length_takeWhile, drop_length_takeWhile]
    exact inStep_dropWhile (by decide) (c :: tail)
  | case7 | case8 =>
    intro h
    cases h

def Layout.fault? (run : Layout) : Option LexFault :=
  run.error.map (·.fault)

/-- A piece of layout is read, and then the layout behind it. -/
theorem layout_of_stretch {start : Cursor} {stretch : Stretch}
    (h : stretch? start.rest = some stretch) :
    (layout start).after = (layout (start.skip stretch.size)).after ∧
      (layout start).fault? = if stretch.closed then (layout (start.skip stretch.size)).fault?
        else some .unterminatedComment := by
  rw [layout_of_some h]
  refine ⟨rfl, ?_⟩
  rw [Layout.fault?]
  split
  · rfl
  · rfl

structure Layout.InStep (run run' : Layout) : Prop where
  rest : run'.after.rest = crlf run.after.rest
  fault : run'.fault? = run.fault?

/-- Layout in step stays in step to its end. There a carriage return that was read ahead has been
made up for, since the line break behind it is layout, too. -/
theorem layout_inStep (start : Cursor) (hclean : '\r' ∉ start.rest) :
    ∀ start' : Cursor, InStep start.rest start'.rest → (layout start).InStep (layout start') := by
  induction start using layout.induct with
  | case1 start hnone =>
    intro start' h
    rcases h with hrest | ⟨rest, hrest, -⟩
    · have hnone' : stretch? start'.rest = none := by
        rw [hrest]
        exact stretch?_crlf_none hclean hnone
      rw [layout_of_none hnone, layout_of_none hnone']
      exact ⟨hrest, rfl⟩
    · rw [hrest] at hnone
      cases hnone
  | case2 start stretch hsome next ih =>
    intro start' h
    have hnext : '\r' ∉ next.rest := fun hmem => hclean (List.mem_of_mem_drop hmem)
    -- it is enough that the first pieces end in step, since the rest of the layout follows by
    -- induction
    have hstep {start' : Cursor} {stretch' : Stretch}
        (hsome' : stretch? start'.rest = some stretch')
        (hclosed : stretch'.closed = stretch.closed)
        (hbehind : InStep next.rest (start'.skip stretch'.size).rest) :
        (layout start).InStep (layout start') := by
      obtain ⟨hafter, hfault⟩ := layout_of_stretch hsome
      obtain ⟨hafter', hfault'⟩ := layout_of_stretch hsome'
      obtain ⟨hrest, hsame⟩ := ih hnext _ hbehind
      refine ⟨?_, ?_⟩
      · rw [hafter, hafter', hrest]
      · rw [hfault, hfault', hclosed, hsame]
    by_cases hbreak : start.rest.head? = some '\n'
    · obtain ⟨tail, htail⟩ := List.head?_eq_some_iff.mp hbreak
      have hline {start' : Cursor} (hrest : start'.rest = '\n' :: crlf tail) :
          (layout start).InStep (layout start') := by
        have hnewline : stretch = ⟨.newline, 1, true⟩ := by
          rw [htail] at hsome
          exact (Option.some.inj hsome).symm
        have hnewline' : stretch? start'.rest = some ⟨.newline, 1, true⟩ := by
          rw [hrest]
          rfl
        have htail' : next.rest = tail := by
          change start.rest.drop stretch.size = tail
          rw [hnewline, htail]
          rfl
        refine hstep hnewline' (by rw [hnewline]) (Or.inl ?_)
        rw [htail', Cursor.skip, hrest]
        rfl
      rcases h with hrest | ⟨rest, hrest, hrest'⟩
      · -- the carriage return is white space in front of the line break
        have hreturn : stretch? start'.rest = some ⟨.whitespace, 1, true⟩ := by
          rw [hrest, htail]
          rfl
        have hskip : (start'.skip 1).rest = '\n' :: crlf tail := by
          rw [Cursor.skip, hrest, htail]
          rfl
        obtain ⟨hafter, hfault⟩ := layout_of_stretch hreturn
        obtain ⟨hsame, hsame'⟩ := hline hskip
        exact ⟨hafter ▸ hsame, hfault.trans hsame'⟩
      · rw [htail] at hrest
        obtain ⟨-, rfl⟩ := List.cons.inj hrest
        exact hline hrest'
    · rcases h with hrest | ⟨rest, hrest, -⟩
      · obtain ⟨stretch', hsome', hclosed, hbehind⟩ := stretch?_crlf_some hclean hbreak hsome
        rw [← hrest] at hsome' hbehind
        exact hstep hsome' hclosed hbehind
      · exact absurd (by rw [hrest]; rfl) hbreak

/-- A literal without a line break in it ends in step. One with a line break stops in front of that,
since its backslash takes the carriage return along. -/
theorem quotedRun_crlf {quote : Char} (hquote : quote ≠ '\r') (chars : List Char) :
    ('\n' ∉ chars.take (quotedRun quote chars).size ∧
        (quotedRun quote (crlf chars)).closed = (quotedRun quote chars).closed ∧
        InStep (chars.drop (quotedRun quote chars).size)
          ((crlf chars).drop (quotedRun quote (crlf chars)).size)) ∨
      ('\n' ∈ chars.take (quotedRun quote chars).size ∧
        (quotedRun quote (crlf chars)).closed = false) := by
  fun_induction quotedRun quote chars with
  | case1 => exact Or.inl ⟨List.not_mem_nil, rfl, Or.inl rfl⟩
  | case2 rest =>
    have hrun : quotedRun quote (crlf ('\n' :: rest)) = ⟨1, false⟩ := by
      rw [crlf_newline, quotedRun_cons _ (by decide) (by decide),
        if_neg (mt beq_iff_eq.mp (Ne.symm hquote))]
      rfl
    rw [hrun]
    exact Or.inl ⟨List.not_mem_nil, rfl, Or.inr ⟨rest, rfl, rfl⟩⟩
  | case3 => exact Or.inl ⟨by decide, rfl, Or.inl rfl⟩
  | case4 c rest ih =>
    have hsize (run : QuotedRun) : (run.after 2).size = run.size + 2 := Nat.add_comm _ _
    rw [hsize, List.take_succ_cons, List.take_succ_cons, List.drop_succ_cons, List.drop_succ_cons]
    -- behind a backslash, a line break is taken along, but of a carriage return with it only that
    -- one
    by_cases hc : c = '\n'
    · subst hc
      exact Or.inr ⟨List.mem_cons_of_mem _ List.mem_cons_self, rfl⟩
    have hrun : quotedRun quote (crlf ('\\' :: c :: rest)) =
        (quotedRun quote (crlf rest)).after 2 := by
      rw [crlf_cons (by decide), crlf_cons hc]
      rfl
    rw [hrun, hsize, crlf_cons (by decide), crlf_cons hc, List.drop_succ_cons, List.drop_succ_cons]
    refine ih.imp ?_ ?_
    · rintro ⟨hinner, hclosed, hbehind⟩
      refine ⟨?_, hclosed, hbehind⟩
      simp only [List.mem_cons, not_or]
      exact ⟨by decide, Ne.symm hc, hinner⟩
    · rintro ⟨hcrossed, hopen⟩
      exact ⟨List.mem_cons_of_mem _ (List.mem_cons_of_mem _ hcrossed), hopen⟩
  | case5 c rest hbreak hlast hescape hend =>
    have hrun : quotedRun quote (crlf (c :: rest)) = ⟨1, true⟩ := by
      rw [crlf_cons hbreak, quotedRun_cons _ hbreak (ne_backslash hlast hescape), if_pos hend]
    rw [hrun, crlf_cons hbreak]
    refine Or.inl ⟨?_, rfl, Or.inl rfl⟩
    rw [List.take_succ_cons, List.take_zero, List.mem_singleton]
    exact Ne.symm hbreak
  | case6 c rest hbreak hlast hescape hend ih =>
    have hsize (run : QuotedRun) : (run.after 1).size = run.size + 1 := Nat.add_comm _ _
    have hrun : quotedRun quote (crlf (c :: rest)) = (quotedRun quote (crlf rest)).after 1 := by
      rw [crlf_cons hbreak, quotedRun_cons _ hbreak (ne_backslash hlast hescape), if_neg hend]
    rw [hrun, hsize, hsize, crlf_cons hbreak, List.take_succ_cons, List.drop_succ_cons,
      List.drop_succ_cons]
    refine ih.imp ?_ ?_
    · rintro ⟨hinner, hclosed, hbehind⟩
      exact ⟨List.not_mem_cons_of_ne_of_not_mem (Ne.symm hbreak) hinner, hclosed, hbehind⟩
    · rintro ⟨hcrossed, hopen⟩
      exact ⟨List.mem_cons_of_mem _ hcrossed, hopen⟩

namespace Scan

/-- What is read in front of some characters, and in front of the same with carriage returns. It is
the same, and what follows is in step; or it is a literal with a line break in it, and the literal
in its place is left open. -/
inductive InStep (chars : List Char) (found found' : Scan) : Prop where
  | whole (kind : found'.kind = found.kind) (inner : '\n' ∉ chars.take found.size)
      (fault : found'.fault = found.fault)
      (behind : Text.InStep (chars.drop found.size) ((crlf chars).drop found'.size))
  | cut (kind : found'.kind = found.kind) (quoted : found.kind.quote?.isSome = true)
      (crossed : '\n' ∈ chars.take found.size) (opened : found'.fault.isSome = true)

/-- A quoted literal ends in step with the one that has carriage returns. -/
theorem quoted_inStep {quote : Char} (hbreak : quote ≠ '\n') (hreturn : quote ≠ '\r') {kind : Kind}
    (hkind : kind.quote?.isSome = true) (fault : LexFault) (rest : List Char) :
    InStep (quote :: rest) (quoted (quote :: rest) quote kind fault)
      (quoted (crlf (quote :: rest)) quote kind fault) := by
  have hsize (rest : List Char) :
      (quoted (quote :: rest) quote kind fault).size = (quotedRun quote rest).size + 1 :=
    Nat.add_comm _ _
  have hfault (rest : List Char) : (quoted (quote :: rest) quote kind fault).fault =
      if (quotedRun quote rest).closed then none else some fault := rfl
  rw [crlf_cons hbreak]
  rcases quotedRun_crlf hreturn rest with
    ⟨hinner, hclosed, hbehind⟩ | ⟨hcrossed, hopen⟩
  · refine .whole rfl ?_ ?_ ?_
    · rw [hsize, List.take_succ_cons]
      exact List.not_mem_cons_of_ne_of_not_mem (Ne.symm hbreak) hinner
    · rw [hfault, hfault, hclosed]
    · rw [hsize, hsize, crlf_cons hbreak, List.drop_succ_cons, List.drop_succ_cons]
      exact hbehind
  · refine .cut rfl hkind ?_ ?_
    · rw [hsize, List.take_succ_cons]
      exact List.mem_cons_of_mem _ hcrossed
    · rw [hfault, hopen]
      rfl

/-- An ordinary token that does not start with a line break is read in step. -/
theorem plain_inStep (preceding : Kind) {chars : List Char} (hbreak : chars.head? ≠ some '\n') :
    InStep chars (plain preceding chars) (plain preceding (crlf chars)) := by
  cases chars with
  | nil => exact .whole rfl List.not_mem_nil rfl (Or.inl rfl)
  | cons c rest =>
    have hc : c ≠ '\n' := fun heq => hbreak (congrArg some heq)
    by_cases hstring : c = '"'
    · subst hstring
      rw [plain_string, crlf_cons hc, plain_string, ← crlf_cons hc]
      exact quoted_inStep hc (by decide) rfl _ rest
    by_cases hname : c = '\''
    · subst hname
      rw [plain_name, crlf_cons hc, plain_name, ← crlf_cons hc]
      exact quoted_inStep hc (by decide) rfl _ rest
    -- any other token ends in front of the end of its line
    obtain ⟨line, later, rfl, hline, hends, hends'⟩ := exists_line rest
    have hinner : '\n' ∉ c :: line := List.not_mem_cons_of_ne_of_not_mem (Ne.symm hc) hline
    have hsize := plain_le preceding (c :: line)
    have hcrlf : crlf (c :: line ++ later) = c :: line ++ crlf later := by
      rw [crlf_append, crlf_of_notMem hinner]
    rw [← List.cons_append, hcrlf, plain_append hends preceding hstring hname,
      plain_append hends' preceding hstring hname]
    refine .whole rfl ?_ rfl (Or.inl ?_)
    · rw [List.take_append_of_le_length hsize]
      exact fun hmem => hinner (List.mem_of_mem_take hmem)
    · rw [hcrlf, List.drop_append_of_le_length hsize, List.drop_append_of_le_length hsize,
        crlf_append, crlf_of_notMem fun hmem => hinner (List.mem_of_mem_drop hmem)]

end Scan

end ScriptTree

import ScriptTree.Proofs.Lexer.StateWord

/-!
The sprite and the frames of a state line in ordinary reading. A line is skipped in ordinary
reading, but its first two words are read as what they are meant for. Where ordinary reading comes
to the end of the frames all the same, or to the end of the token behind them, the two ways of
reading are in step from there on.
-/

namespace ScriptTree

open Text

/-- A run of frame letters takes the characters of a sprite in front of it, if none of a sprite
comes behind it. -/
theorem isFrameChar_of_dropWhile {front rest : List Char}
    (hfront : ∀ c ∈ front, isSpriteChar c = true ∨ isFrameChar c = true)
    (h : ((front ++ rest).dropWhile isFrameChar).head?.any isSpriteChar = false) :
    ∀ c ∈ front, isFrameChar c = true := by
  induction front with
  | nil =>
    intro c hmem
    cases hmem
  | cons c front ih =>
    obtain ⟨hc, hmore⟩ := List.forall_mem_cons.mp hfront
    rw [List.cons_append, List.dropWhile_cons] at h
    by_cases hframe : isFrameChar c = true
    · rw [if_pos hframe] at h
      exact List.forall_mem_cons.mpr ⟨hframe, ih hmore h⟩
    · rw [if_neg hframe] at h
      exact absurd (hc.resolve_right hframe) (Bool.eq_false_iff.mp h)

/-- Frames that start with characters of a sprite take them all, and what they take behind them is
frames as well. -/
theorem bareFrames?_append {front rest : List Char} {size : Nat}
    (hfront : ∀ c ∈ front, isSpriteChar c = true ∨ isFrameChar c = true)
    (h : bareFrames? (front ++ rest) = some size) :
    size = front.length ∨ ∃ more, size = front.length + more ∧ bareFrames? rest = some more ∧
      rest.head?.any isFrameChar = true := by
  have hdrop (chars : List Char) : chars.drop (chars.takeWhile isFrameChar).length =
      chars.dropWhile isFrameChar := by
    calc
      chars.drop (chars.takeWhile isFrameChar).length =
          (chars.takeWhile isFrameChar ++ chars.dropWhile isFrameChar).drop
            (chars.takeWhile isFrameChar).length := by rw [List.takeWhile_append_dropWhile]
      _ = chars.dropWhile isFrameChar := List.drop_left
  simp only [bareFrames?, hdrop, Option.ite_none_left_eq_some, Bool.or_eq_true, not_or,
    Option.some.injEq] at h
  obtain ⟨⟨-, hnext⟩, rfl⟩ := h
  have hall := isFrameChar_of_dropWhile hfront (Bool.eq_false_iff.mpr hnext)
  rw [List.dropWhile_append_of_pos hall] at hnext
  rw [List.takeWhile_append_of_pos hall, List.length_append]
  cases rest with
  | nil => exact Or.inl rfl
  | cons c rest =>
    by_cases hc : isFrameChar c = true
    · refine Or.inr ⟨_, rfl, ?_, hc⟩
      have hfull : ((c :: rest).takeWhile isFrameChar).isEmpty = false := by
        rw [List.takeWhile_cons, if_pos hc]
        rfl
      simp only [bareFrames?, hdrop, hfull, Bool.eq_false_iff.mpr hnext]
      rfl
    · rw [List.takeWhile_cons, if_neg hc]
      exact Or.inl rfl

/-- Between the quotes of a sprite stand ASCII characters that end no frames. -/
theorem of_isQuotedSpriteChar {c : Char} (h : isQuotedSpriteChar c = true) :
    (c != '"' && c != '\n') = true ∧ c.toNat ≤ 127 := by
  simp only [isQuotedSpriteChar, Bool.or_eq_true, beq_iff_eq] at h
  rcases h with (h | rfl) | rfl
  · have hword : isWordPart c = true := by rw [isWordPart, show isNamePart c = true from h]; rfl
    exact @of_isWordPart (fun c => (c != '"' && c != '\n') = true ∧ c.toNat ≤ 127)
      (by decide +kernel) c hword
  · decide
  · decide

/-- Frames that start where a sprite does end with it, or what they take behind it is frames. -/
theorem frames?_of_sprite? {chars : List Char} {size more : Nat}
    (hsprite : sprite? chars = some size) (hframes : frames? chars = some more) :
    more = size ∨ ∃ behind, more = size + behind ∧
      bareFrames? (chars.drop size) = some behind ∧
      (chars.drop size).head?.any isFrameChar = true := by
  unfold sprite? at hsprite
  unfold frames? at hframes
  split at hsprite
  · next hquote =>
    -- four ASCII characters stand between the quotes
    rw [if_pos hquote] at hframes
    unfold quotedSprite? at hsprite
    split at hsprite
    case h_2 => cases hsprite
    case h_1 a b c d rest =>
      obtain ⟨hall, hsize⟩ := Option.ite_none_right_eq_some.mp hsprite
      obtain rfl := Option.some.inj hsize
      have hinner : ∀ x ∈ [a, b, c, d], (x != '"' && x != '\n') = true ∧ x.toNat ≤ 127 := by
        intro x hmem
        exact of_isQuotedSpriteChar (List.all_eq_true.mp hall x hmem)
      have hrun : (a :: b :: c :: d :: '"' :: rest).takeWhile (fun x => x != '"' && x != '\n') =
          [a, b, c, d] := by
        show ([a, b, c, d] ++ '"' :: rest).takeWhile _ = _
        rw [List.takeWhile_append_of_pos fun x hmem => (hinner x hmem).1]
        rfl
      have hbytes : byteCount [a, b, c, d] = 4 := byteCount_eq_length fun x hmem =>
        (hinner x hmem).2
      simp only [quotedFrames?, List.drop_succ_cons, List.drop_zero, hrun, hbytes] at hframes
      exact Or.inl (Option.some.inj (Option.ite_none_right_eq_some.mp hframes).2).symm
  · next hquote =>
    rw [if_neg hquote] at hframes
    unfold bareSprite? at hsprite
    split at hsprite
    case h_2 => cases hsprite
    case h_1 a b c d rest =>
      obtain ⟨hword, hsize⟩ := Option.ite_none_right_eq_some.mp hsprite
      obtain rfl := Option.some.inj hsize
      have hfront : ∀ x ∈ [a, b, c, d], isSpriteChar x = true ∨ isFrameChar x = true := by
        rcases Bool.or_eq_true_iff.mp (Bool.and_eq_true_iff.mp hword).1 with hall | hall
        · exact fun x hmem => Or.inl (List.all_eq_true.mp hall x hmem)
        · intro x hmem
          rw [beq_iff_eq.mp (List.all_eq_true.mp hall x hmem)]
          exact Or.inr (by decide)
      exact bareFrames?_append hfront hframes

theorem sprite?_angle (rest : List Char) : sprite? ('>' :: rest) = none := by
  have hangle : isSpriteChar '>' = false := by decide
  have hquote : ¬ (('>' :: rest).head? == some '"') = true := nofun
  rw [sprite?, if_neg hquote]
  unfold bareSprite?
  split
  · next heq =>
    obtain ⟨rfl, -⟩ := List.cons.inj heq
    simp [hangle]
  · rfl

namespace Lexer

variable {lexer : Lexer} {a stop : Cursor} {preceding : Kind} {size : Nat}

def behindSprite (lexer : Lexer) : Lexer :=
  (lexer.relex .sprite).advance

def atFrames (lexer : Lexer) : Lexer :=
  lexer.behindSprite.relex .frames

/-- The frames of a state line are quoted or stand in front of a sign, and ordinary reading from the
sprite on comes neither to their end nor to the end of the token behind them. -/
structure Slips (lexer : Lexer) : Prop where
  sprite : (lexer.relex .sprite).current.kind = .sprite
  frames : lexer.atFrames.current.kind = .frames
  marked : lexer.atFrames.current.text.toList.head? = some '"' ∨
    lexer.atFrames.next.rest.head? = some '+' ∨ lexer.atFrames.next.rest.head? = some '-'
  apart : ¬ lexer.behindSprite.ComesTo lexer.atFrames.next
  further : ¬ lexer.behindSprite.ComesTo lexer.atFrames.advance.next

def strayKinds : List Kind :=
  [.semicolon, .leftBrace, .rightBrace, .eof, .nameLiteral, .dot, .dot2, .ellipsis]

/-- Reading goes on behind layout as in front of it. -/
theorem RunsOver.of_layout (h : (place (layout a).after .plain preceding).RunsOver stop) :
    (place a .plain preceding).RunsOver stop := by
  obtain ⟨front, c, run, hcomes, h⟩ := h
  exact ⟨front, c, run, comesTo_layout.mp hcomes, h⟩

/-- A bare word that no further character of a name follows. -/
theorem comesTo_word {chars : List Char} (hchars : chars = (layout a).after.peek size)
    (hword : ∀ c ∈ chars, isWordPart c = true)
    (hstop : ((layout a).after.skip size).rest.head?.any isNamePart = false)
    (preceding : Kind) :
    (place a .plain preceding).ComesTo (layout ((layout a).after.skip size)).after ∨
      (place a .plain preceding).RunsOver ((layout a).after.skip size) := by
  subst hchars
  exact (comesTo_or_runsOver hword hstop ((layout a).after.passes_skip size) preceding).imp
    comesTo_layout.mp .of_layout

theorem any_isNamePart {chars : List Char}
    (h : ∀ next ∈ chars.head?, isWordChar next = false) : chars.head?.any isNamePart = false := by
  rw [← isSpriteChar_eq] at h
  cases chars with
  | nil => rfl
  | cons c rest => exact h c rfl

/-- A closed string is a token in ordinary reading. -/
theorem comesTo_string {body more : List Char}
    (hrest : (layout a).after.rest = '"' :: (body ++ '"' :: more))
    (hbody : isQuotable '"' body = true) (preceding : Kind) :
    (place a .plain preceding).ComesTo
      (layout ((layout a).after.skip (body.length + 2))).after := by
  have hnumber : Number.starts preceding ('"' :: (body ++ '"' :: more)) = false := rfl
  have hscan : scan .plain preceding (layout a).after.rest =
      .sound .string (body.length + 2) := by
    rw [hrest]
    show Scan.plain preceding ('"' :: (body ++ '"' :: more)) = _
    have hrun : quotedRun '"' (body ++ '"' :: more) = ⟨body.length + 1, true⟩ :=
      quotedRun_of_isQuotable (by decide) (by decide) hbody more
    have hname : isNameStart '"' = false := by decide
    simp [Scan.plain, hnumber, hname, Scan.quoted, hrun, Scan.sound]
    omega
  have hkind : (place a .plain preceding).current.kind = .string := congrArg Scan.kind hscan
  refine .token (hkind ▸ by decide) (.here ?_)
  show (layout (layout ((layout a).after.skip
    (scan .plain preceding (layout a).after.rest).size)).after).after = _
  rw [hscan, layout_of_none (stretch?_layout _)]
  rfl

/-- Ordinary reading of a sprite comes to its end, or a number runs over it. -/
theorem comesTo_sprite (h : sprite? (layout a).after.rest = some size) (preceding : Kind) :
    ((layout a).after.skip size).rest.head?.any isNamePart = false ∧
      (place a .plain preceding).RunsOver ((layout a).after.skip size) ∨
    (place a .plain preceding).ComesTo (layout ((layout a).after.skip size)).after := by
  rcases isSprite_of_sprite? h with ⟨-, hword, hafter⟩ | ⟨inner, hquoted, -, hinner⟩
  · have hparts : ∀ c ∈ (layout a).after.rest.take size, isWordPart c = true := by
      rcases hword with hword | hmarks
      · intro c hmem
        have hc := List.all_eq_true.mp hword c hmem
        rw [← isSpriteChar_eq] at hc
        rw [isWordPart, show isNamePart c = true from hc, Bool.true_or]
      · rw [hmarks]
        exact Integer.forall_mem_of_all (by decide)
    have hstop := any_isNamePart fun next hmem => (hafter next hmem).1
    exact (comesTo_word rfl hparts hstop preceding).symm.imp_left fun hover => ⟨hstop, hover⟩
  · have hbody : isQuotable '"' inner = true := by
      refine isQuotable_of_forall fun c hmem => ?_
      rcases hinner c hmem with hword | rfl | rfl
      · rw [← isSpriteChar_eq] at hword
        refine ⟨?_, ?_, ?_⟩
        all_goals
          rintro rfl
          exact absurd hword (by decide)
      · decide
      · decide
    let front := (layout a).after
    have hpeek : front.peek size = '"' :: (inner ++ ['"']) := hquoted
    have hpasses := front.passes_skip size
    rw [hpeek] at hpasses
    have hrest : front.rest = '"' :: (inner ++ '"' :: (front.skip size).rest) := by
      rw [hpasses.1]
      simp
    have hlength : ('"' :: (inner ++ ['"'])).length = inner.length + 2 := by simp
    rw [hpasses.eq_skip, hlength]
    exact Or.inr (comesTo_string hrest hbody preceding)

theorem isWordPart_of_frames {chars : List Char} (h : chars.all isFrameChar = true) :
    ∀ c ∈ chars, isWordPart c = true := by
  intro c hmem
  rw [isWordPart, List.all_eq_true.mp h c hmem, Bool.or_true]

/-- Ordinary reading of frames without quotes comes to their end, or a number runs over it. -/
theorem comesTo_frames (h : frames? (layout a).after.rest = some size)
    (hquote : (layout a).after.rest.head? ≠ some '"') (preceding : Kind) :
    ((layout a).after.skip size).rest.head?.any isNamePart = false ∧
      (place a .plain preceding).RunsOver ((layout a).after.skip size) ∨
    (place a .plain preceding).ComesTo (layout ((layout a).after.skip size)).after := by
  rw [frames?, if_neg (by simpa using hquote)] at h
  obtain ⟨-, hall, hstop⟩ := of_bareFrames? h
  exact (comesTo_word rfl (isWordPart_of_frames hall) hstop preceding).symm.imp_left
    fun hover => ⟨hstop, hover⟩

/-- A mark of a number that is no sign of layout, of a sprite or of frames. -/
theorem layout_mark {mark : Char} {rest : List Char} (hrest : stop.rest = mark :: rest)
    (hmark : mark ∈ ['.', '\'', '+', '-']) : layout stop = ⟨[], none, stop⟩ := by
  have hsolid : ∀ mark ∈ ['.', '\'', '+', '-'], IsSolid mark :=
    Integer.forall_mem_of_all (by decide)
  exact layout_of_none (hrest ▸ stretch?_of_solid (hsolid mark hmark) rest)

theorem frames?_mark {mark : Char} {rest : List Char} (hmark : mark ∈ ['.', '\'', '+', '-']) :
    frames? (mark :: rest) = none := by
  have hmarks : ∀ mark ∈ ['.', '\'', '+', '-'], isFrameChar mark = false ∧ mark ≠ '"' :=
    Integer.forall_mem_of_all (by decide)
  obtain ⟨hframe, hquote⟩ := hmarks mark hmark
  simp [frames?, bareFrames?, hframe, hquote]

/-- What a lexer sees at a position. -/
theorem place_eq (a : Cursor) (mode : LexMode) (preceding : Kind) :
    let found := scan mode preceding (layout a).after.rest
    (place a mode preceding).current.kind = found.kind ∧
      (place a mode preceding).current.span.start = (layout a).after.offset ∧
      (place a mode preceding).current.text = String.ofList ((layout a).after.peek found.size) ∧
      (place a mode preceding).next = (layout ((layout a).after.skip found.size)).after :=
  ⟨rfl, rfl, rfl, rfl⟩

/-- Frames that were read where a sprite is end with it, or frames are read behind the sprite up to
the same place. -/
theorem place_frames {more : Nat} (hsprite : sprite? a.rest = some size)
    (hframes : frames? a.rest = some more) (preceding : Kind) :
    (layout (a.skip more)).after = (layout (a.skip size)).after ∨
      (place (layout (a.skip size)).after .frames preceding).current.kind = .frames ∧
        (place (layout (a.skip size)).after .frames preceding).next =
          (layout (a.skip more)).after := by
  rcases frames?_of_sprite? hsprite hframes with rfl | ⟨behind, rfl, hbare, hhead⟩
  · exact Or.inl rfl
  have hquote : (a.skip size).rest.head? ≠ some '"' := by
    intro hquote
    rw [show (a.rest.drop size).head? = _ from hquote] at hhead
    exact absurd hhead (by decide)
  have hfound : frames? (a.skip size).rest = some behind := by
    rwa [frames?, if_neg (by simpa using hquote)]
  obtain ⟨hne, hall, -⟩ := of_bareFrames? hbare
  obtain ⟨c, run, hrun⟩ := List.exists_cons_of_ne_nil hne
  obtain ⟨hc, hmore⟩ := List.forall_mem_cons.mp (hrun ▸ isWordPart_of_frames hall)
  have hpasses : (a.skip size).Passes (c :: run) (a.skip (size + behind)) := by
    rw [← hrun, ← Cursor.skip_skip]
    exact (a.skip size).passes_skip behind
  rcases layout_wordPart hc hmore hpasses with hlayout | hlayout
  · have hscan : scan .frames preceding (layout (layout (a.skip size)).after).after.rest =
        .sound .frames behind := by
      rw [hlayout, hlayout, scan, Scan.special?, hfound]
      rfl
    obtain ⟨hkind, -, -, hnext⟩ := place_eq (layout (a.skip size)).after .frames preceding
    rw [hscan] at hkind hnext
    refine Or.inr ⟨hkind, ?_⟩
    rw [hnext, hlayout, hlayout]
    exact congrArg (fun stop => (layout stop).after) (Cursor.skip_skip a size behind)
  · exact Or.inl hlayout.symm

/-- A point that no number starts with is an operator. -/
theorem plain_point {preceding : Kind} {rest : List Char}
    (h : Number.startsUnsigned ('.' :: rest) = false) :
    (Scan.plain preceding ('.' :: rest)).kind ∈ [Kind.dot, .dot2, .ellipsis] := by
  have hnumber : Number.starts preceding ('.' :: rest) = false := h
  have hname : isNameStart '.' = false := by decide
  have hplain : Scan.plain preceding ('.' :: rest) = Scan.symbol ('.' :: rest) := by
    simp [Scan.plain, hnumber, hname, Scan.atInclude]
  rw [hplain]
  show (operatorAt '.' rest).1 ∈ _
  simp only [operatorAt]
  split
  · split <;> decide
  · decide

/-- Where a number runs over a stop with a point in front of a digit, ordinary reading comes to the
end of the number that starts there. -/
theorem RunsOver.comesTo (h : lexer.RunsOver stop)
    (hplain : lexer = place lexer.start .plain lexer.preceding) {rest : List Char}
    (hrest : stop.rest = '.' :: rest) (hstarts : Number.startsUnsigned ('.' :: rest) = true)
    (preceding : Kind) : lexer.ComesTo (place stop .plain preceding).next := by
  obtain ⟨front, c, run, hcomes, hpasses, hdigit, hword, hover⟩ := h
  obtain ⟨other, hbehind⟩ := hcomes.exists_preceding hplain
  have hfront : front.rest = (c :: run) ++ '.' :: rest := by rw [hpasses.1, hrest]
  have hnumber : Number.startsUnsigned front.rest = true := by
    rw [hfront]
    exact Number.startsUnsigned_of_isDigit hdigit _
  have hpoint : ∀ d ∈ c :: run, d ≠ '.' := by
    intro d hmem
    exact @of_isWordPart (fun d => d ≠ '.') (by decide +kernel) d (hword d hmem)
  -- both numbers end at the same place
  have hsize : (Number.unsigned front.rest).1 =
      (c :: run).length + (Number.unsigned stop.rest).1 := by
    rw [hfront] at hover ⊢
    rw [hrest]
    exact Number.unsigned_of_point hpoint hover
  obtain ⟨hkind, hnext⟩ := place_unsigned hnumber other
  obtain ⟨-, hnext'⟩ := place_unsigned (hrest.symm ▸ hstarts) preceding
  rw [hsize, ← Cursor.skip_skip, ← hpasses.eq_skip] at hnext
  refine hbehind _ (.token ?_ (.here ?_))
  · rw [hkind]
    rcases Number.unsigned_kind front.rest with h | h
    · exact h ▸ by decide
    · exact h ▸ by decide
  · show (layout (place front .plain other).next).after = _
    rw [hnext, hnext', layout_of_none (stretch?_layout _)]

/-- Reading again starts at the same place. -/
theorem Placed.relex_span_start (h : lexer.Placed) (mode : LexMode) :
    (lexer.relex mode).current.span.start = lexer.current.span.start := by
  rw [h.relex_eq, (place_eq _ _ _).2.1, h.current_eq]
  rfl

end Lexer

namespace Watch

variable {watch : Watch} {a stop : Cursor} {offset : Nat} {lexer : Lexer}

theorem IsOpen.ne_stop (hopen : watch.IsOpen) {kind : Kind}
    (h : kind ∉ [Kind.semicolon, .leftBrace, .rightBrace]) : kind ≠ watch.stop := by
  rintro rfl
  exact h hopen.stop

/-- Where a number runs over a sprite, no frames come next. -/
theorem Nears.frames_missing (hopen : watch.IsOpen) {preceding : Kind}
    (h : watch.Nears offset (.place a .plain preceding))
    (hstop : stop.rest.head?.any isNamePart = false)
    (hover : (Lexer.place a .plain preceding).RunsOver stop) (preceding' : Kind) :
    let frames := Lexer.place (layout stop).after .frames preceding'
    frames.current.kind ≠ .frames ∧ frames.current.span.start ≤ offset := by
  obtain ⟨mark, rest, hrest, hmark⟩ := hover.exists_mark hstop
  have hlayout := Lexer.layout_mark hrest hmark
  have hscan : scan .frames preceding' (layout stop).after.rest =
      Scan.plain preceding' (layout stop).after.rest := by
    rw [hlayout, hrest, scan, Scan.special?, Lexer.frames?_mark hmark]
    rfl
  obtain ⟨hkind, hstart, -, -⟩ := Lexer.place_eq (layout stop).after .frames preceding'
  rw [hlayout] at hscan hkind hstart ⊢
  refine ⟨?_, ?_⟩
  · rw [hkind, hlayout, hscan]
    intro hframes
    have hmem := (Scan.ordinary_plain preceding' stop.rest).kind_mem
    rw [hframes] at hmem
    exact absurd hmem (by decide)
  · rw [hstart, hlayout]
    exact h.le_of_runsOver hopen hover rfl

/-- Where a sprite was read, the stop is still ahead, or no frames come next, or the lookahead was
read as frames before and the frames behind the sprite end with it. -/
theorem Nears.behindSprite (hopen : watch.IsOpen) (h : watch.Nears offset lexer)
    (hplaced : lexer.Placed) (hsprite : (lexer.relex .sprite).current.kind = .sprite) :
    watch.Nears offset lexer.behindSprite ∨
      lexer.atFrames.current.kind ≠ .frames ∧ lexer.atFrames.current.span.start ≤ offset ∨
      lexer.atFrames.current.kind = .frames ∧ watch.Nears offset lexer.atFrames.advance := by
  obtain ⟨start, mode, preceding, rfl⟩ :
      ∃ start mode preceding, lexer = .place start mode preceding := ⟨_, _, _, hplaced⟩
  let front := (layout start).after
  have hrelex : (Lexer.place start mode preceding).relex .sprite =
      .place start .sprite preceding := hplaced.relex_eq _
  rw [hrelex] at hsprite
  obtain ⟨size, hsize, hfound⟩ := (exists_of_stateWord _ _ front.rest).1 hsprite
  let behind := (layout (front.skip size)).after
  have hbehind : (Lexer.place start mode preceding).behindSprite =
      .place behind .plain .sprite := by
    rw [Lexer.behindSprite, hrelex, Lexer.advance, hsprite, (Lexer.place_eq _ _ _).2.2.2, hfound]
    rfl
  have hframes : (Lexer.place start mode preceding).atFrames =
      .place behind .frames .sprite := by
    rw [Lexer.atFrames, hbehind, (Lexer.place_placed _ _ _).relex_eq]
    rfl
  rw [hframes, hbehind]
  cases hspecial : Scan.special? mode front.rest with
  | none =>
    -- the sprite is read in the ordinary way
    have hlex : lex .plain preceding start = lex mode preceding start := by
      have hscan : scan .plain preceding front.rest = scan mode preceding front.rest := by
        rw [scan, scan, hspecial]
        rfl
      simp only [front] at hscan
      simp only [lex, hscan]
    have hplain : watch.Nears offset (.place start .plain preceding) :=
      h.congr_of_isOpen hopen (congrArg Prod.fst hlex) (congrArg Prod.snd hlex)
    rcases Lexer.comesTo_sprite hsize preceding with ⟨hstop, hover⟩ | hcomes
    · exact Or.inr (Or.inl (hplain.frames_missing hopen hstop hover .sprite))
    · obtain ⟨other, hother⟩ := hplain.of_comesTo hopen hcomes rfl
      exact Or.inl (hother.of_preceding hopen .sprite)
  | some found =>
    have hscan : scan mode preceding front.rest = found := by
      rw [scan, hspecial]
      rfl
    have hadvance (hstop : found.kind ≠ watch.stop) :
        watch.Nears offset (.place (layout (front.skip found.size)).after .plain found.kind) := by
      rw [← hscan] at hstop ⊢
      exact h.advance hstop
    obtain ⟨more, hmore, rfl⟩ | ⟨more, hmore, rfl⟩ | ⟨hangle, -⟩ := Scan.special?_eq hspecial
    · -- it was read as a sprite before
      obtain rfl := Option.some.inj (hsize.symm.trans hmore)
      exact Or.inl (hadvance (hopen.ne_stop (show Kind.sprite ∉ _ by decide)))
    · -- it was read as frames before
      have hbefore := hadvance (hopen.ne_stop (show Kind.frames ∉ _ by decide))
      rcases Lexer.place_frames hsize hmore .sprite with hsame | ⟨hkind, hnext⟩
      · rw [Scan.sound, hsame] at hbefore
        exact Or.inl (hbefore.of_preceding hopen .sprite)
      · refine Or.inr (Or.inr ⟨hkind, ?_⟩)
        rw [Lexer.advance, hkind, hnext]
        exact hbefore
    · -- no sprite starts with `>`
      obtain ⟨rest, hrest⟩ := List.head?_eq_some_iff.mp hangle
      rw [hrest] at hsize
      rw [sprite?_angle] at hsize
      cases hsize

/-- Where a number runs over frames without a sign behind it, ordinary reading comes to the end of
the token behind them, or no duration starts with that token. -/
theorem Nears.strays (hopen : watch.IsOpen) {preceding : Kind}
    (h : watch.Nears offset (.place a .plain preceding))
    (hstop : stop.rest.head?.any isNamePart = false)
    (hover : (Lexer.place a .plain preceding).RunsOver stop)
    (hsign : stop.rest.head? ≠ some '+' ∧ stop.rest.head? ≠ some '-') (preceding' : Kind) :
    let behind := Lexer.place (layout stop).after .plain preceding'
    (Lexer.place a .plain preceding).ComesTo behind.next ∨
      behind.current.kind ∈ Lexer.strayKinds ∧ behind.current.span.start ≤ offset := by
  obtain ⟨mark, rest, hrest, hmark⟩ := hover.exists_mark hstop
  have hlayout := Lexer.layout_mark hrest hmark
  have hle := h.le_of_runsOver hopen hover rfl
  obtain ⟨hkind, hstart, -, -⟩ := Lexer.place_eq stop .plain preceding'
  rw [hrest] at hsign
  rw [hlayout] at hkind hstart ⊢
  have hstray (hkind' : (Scan.plain preceding' stop.rest).kind ∈ Lexer.strayKinds) :
      (Lexer.place stop .plain preceding').current.kind ∈ Lexer.strayKinds ∧
        (Lexer.place stop .plain preceding').current.span.start ≤ offset := by
    refine ⟨?_, hstart.symm ▸ hle⟩
    rw [hkind]
    exact hkind'
  simp only [List.mem_cons, List.not_mem_nil, or_false] at hmark
  rcases hmark with rfl | rfl | rfl | rfl
  · cases hstarts : Number.startsUnsigned ('.' :: rest) with
    | true => exact Or.inl (hover.comesTo rfl hrest hstarts preceding')
    | false =>
      have hpoint : (Scan.plain preceding' ('.' :: rest)).kind ∈ [Kind.dot, .dot2, .ellipsis] :=
        Lexer.plain_point hstarts
      have hstrays : ∀ kind ∈ [Kind.dot, .dot2, .ellipsis], kind ∈ Lexer.strayKinds := by decide
      exact Or.inr (hstray (hrest ▸ hstrays _ hpoint))
  · have hquote : (Scan.plain preceding' ('\'' :: rest)).kind = .nameLiteral := rfl
    exact Or.inr (hstray (hrest ▸ hquote ▸ by decide))
  · exact absurd rfl hsign.1
  · exact absurd rfl hsign.2

/-- Behind frames that are in step with ordinary reading the stop is still ahead, or a token comes
next that no duration starts with. -/
theorem Nears.frames (hopen : watch.IsOpen) {start : Cursor}
    (h : watch.Nears offset (.place start .plain .sprite)) {frames : Lexer}
    (hframes : frames = .place start .frames .sprite) (hkind : frames.current.kind = .frames)
    (hstep : (Lexer.place start .plain .sprite).ComesTo frames.next ∨
      (Lexer.place start .plain .sprite).ComesTo frames.advance.next ∨
      frames.current.text.toList.head? ≠ some '"' ∧ frames.next.rest.head? ≠ some '+' ∧
        frames.next.rest.head? ≠ some '-') :
    watch.Nears offset frames.advance ∨
      frames.advance.current.kind ∈ Lexer.strayKinds ∧
        frames.advance.current.span.start ≤ offset := by
  have hadvance : frames.advance = .place frames.next .plain .frames := by
    rw [Lexer.advance, hkind]
  have hfurther (hcomes : (Lexer.place start .plain .sprite).ComesTo frames.advance.next) :
      watch.Nears offset frames.advance ∨
        frames.advance.current.kind ∈ Lexer.strayKinds ∧
          frames.advance.current.span.start ≤ offset := by
    obtain ⟨other, hother⟩ := h.of_comesTo hopen hcomes rfl
    by_cases hstop : frames.advance.current.kind ∈
        [Kind.semicolon, .leftBrace, .rightBrace, .eof]
    · have hstrays : ∀ kind ∈ [Kind.semicolon, .leftBrace, .rightBrace, .eof],
          kind ∈ Lexer.strayKinds := by decide
      refine Or.inr ⟨hstrays _ hstop, ?_⟩
      calc
        frames.advance.current.span.start ≤ frames.advance.next.offset :=
          frames.advance_placed.span_start.2
        _ ≤ (Lexer.place frames.advance.next .plain other).current.span.start :=
          (Lexer.place_placed _ _ _).span_start.1
        _ ≤ offset := hother.le (Lexer.place_placed _ _ _)
    · exact Or.inl (.step_of_isOpen hopen (hopen.allows _ hstop) (hother.of_preceding hopen _))
  rcases hstep with hcomes | hcomes | ⟨hquote, hsign⟩
  · obtain ⟨other, hother⟩ := h.of_comesTo hopen hcomes rfl
    rw [hadvance]
    exact Or.inl (hother.of_preceding hopen .frames)
  · exact hfurther hcomes
  · -- the frames are bare, and no sign stands behind them
    subst hframes
    obtain ⟨size, hsize, hfound⟩ := (exists_of_stateWord _ _ _).2 hkind
    obtain ⟨-, -, htext, hnext⟩ := Lexer.place_eq start .frames .sprite
    rw [hfound] at htext hnext
    have hbare : (layout start).after.rest.head? ≠ some '"' := by
      have hne : size ≠ 0 := Nat.ne_of_gt (Scan.frames?_pos hsize).1
      rw [htext, String.toList_ofList, Cursor.peek, List.head?_take] at hquote
      rwa [if_neg (show (Scan.sound .frames size).size ≠ 0 from hne)] at hquote
    rcases Lexer.comesTo_frames hsize hbare .sprite with ⟨hstop, hover⟩ | hcomes
    · have hsigns : ((layout start).after.skip size).rest.head? ≠ some '+' ∧
          ((layout start).after.skip size).rest.head? ≠ some '-' := by
        obtain ⟨mark, rest, hrest, hmark⟩ := hover.exists_mark hstop
        rw [hnext, show (Scan.sound .frames size).size = size from rfl,
          Lexer.layout_mark hrest hmark] at hsign
        exact hsign
      rcases h.strays hopen hstop hover hsigns .frames with hcomes | hstray
      · refine hfurther ?_
        rw [hadvance, hnext]
        exact hcomes
      · rw [hadvance, hnext]
        exact Or.inr hstray
    · rw [hadvance, hnext]
      obtain ⟨other, hother⟩ := h.of_comesTo hopen hcomes rfl
      exact Or.inl (hother.of_preceding hopen .frames)

/-- Where the frames of a state line do not slip, the stop is still ahead behind them, or there are
no frames, or a token comes next that no duration starts with. -/
theorem Nears.stateWords (hopen : watch.IsOpen) (h : watch.Nears offset lexer)
    (hplaced : lexer.Placed) (hsprite : (lexer.relex .sprite).current.kind = .sprite)
    (hslips : ¬ lexer.Slips) :
    lexer.atFrames.current.kind ≠ .frames ∧ lexer.atFrames.current.span.start ≤ offset ∨
      lexer.atFrames.current.kind = .frames ∧ (watch.Nears offset lexer.atFrames.advance ∨
        lexer.atFrames.advance.current.kind ∈ Lexer.strayKinds ∧
          lexer.atFrames.advance.current.span.start ≤ offset) := by
  rcases h.behindSprite hopen hplaced hsprite with hbehind | hmissing | ⟨hkind, hnears⟩
  · have hplain : lexer.behindSprite = .place lexer.behindSprite.start .plain .sprite :=
      congrArg (Lexer.place _ .plain) hsprite
    have hframes : lexer.atFrames = .place lexer.behindSprite.start .frames .sprite := by
      have hbehind : lexer.behindSprite.Placed := Lexer.advance_placed _
      rw [Lexer.atFrames, hbehind.relex_eq]
      exact congrArg (Lexer.place _ .frames) hsprite
    by_cases hkind : lexer.atFrames.current.kind = .frames
    · refine Or.inr ⟨hkind, (hplain ▸ hbehind).frames hopen hframes hkind ?_⟩
      by_contra hstep
      rw [not_or, not_or, ← hplain] at hstep
      obtain ⟨hapart, hfurther, hmarked⟩ := hstep
      refine hslips ⟨hsprite, hkind, ?_, hapart, hfurther⟩
      by_contra hclear
      rw [not_or, not_or] at hclear
      exact hmarked hclear
    · refine Or.inl ⟨hkind, ?_⟩
      calc
        lexer.atFrames.current.span.start = lexer.behindSprite.current.span.start := by
          rw [hframes, hplain]
          rfl
        _ ≤ offset := hbehind.le (Lexer.advance_placed _)
  · exact Or.inl hmissing
  · exact Or.inr ⟨hkind, Or.inl hnears⟩

end Watch

end ScriptTree

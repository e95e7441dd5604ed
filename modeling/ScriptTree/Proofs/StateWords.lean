import ScriptTree.Proofs.Lexer.Ordinary
import ScriptTree.Proofs.Lexer.Standing

/-!
The words of state lines. Sprites and frames have the form that is meant for them wherever they are
read, but for one kind of frames. What stands between the quotes of frames is measured in bytes and
taken in characters, so that frames with other characters than ASCII between their quotes run past
the closing one.
-/

namespace ScriptTree

namespace Text

def isWordChar (c : Char) : Bool :=
  c.isAlphanum || c == '_'

def isFrameLetter (c : Char) : Bool :=
  c.isUpper || c.isDigit || ['[', ']', '\\', '#'].contains c

/-- Characters that form a sprite before those behind them: four word characters or four number
signs, which none of either follows, or four characters between quotes. -/
def IsSprite (chars after : List Char) : Prop :=
  (chars.length = 4 ∧ (chars.all isWordChar = true ∨ chars = ['#', '#', '#', '#']) ∧
    ∀ next ∈ after.head?, isWordChar next = false ∧ next ≠ '#') ∨
  ∃ inner, chars = '"' :: (inner ++ ['"']) ∧ inner.length = 4 ∧
    ∀ c ∈ inner, isWordChar c = true ∨ c = '#' ∨ c = '-'

def IsInner (inner : List Char) : Prop :=
  inner ≠ [] ∧ ∀ c ∈ inner, c ≠ '"' ∧ c ≠ '\n'

/-- Characters that form frames before those behind them: frame letters, which no word character
follows, or characters between quotes. -/
def IsFrames (chars after : List Char) : Prop :=
  (chars ≠ [] ∧ chars.all isFrameLetter = true ∧
    ∀ next ∈ after.head?, isWordChar next = false) ∨
  ∃ inner, chars = '"' :: (inner ++ ['"']) ∧ IsInner inner

/-- Quoted frames with a character outside ASCII that run past their closing quote, by as many
characters as there are bytes to spare between the quotes, or up to the end of the text. -/
def Overruns (chars after : List Char) : Prop :=
  ∃ inner extra, chars = '"' :: (inner ++ '"' :: extra) ∧ IsInner inner ∧
    (∃ c ∈ inner, 127 < c.toNat) ∧
    extra = (extra ++ after).take (byteCount inner - inner.length)

theorem isUpper_eq (c : Char) : c.isUpper = decide ('A' ≤ c ∧ c ≤ 'Z') :=
  rfl

theorem isAlpha_eq (c : Char) : c.isAlpha = (c.isUpper || (decide ('a' ≤ c) && decide (c ≤ 'z'))) :=
  rfl

theorem isSpriteChar_eq : isSpriteChar = isWordChar := by
  ext c
  simp only [isSpriteChar, isNamePart, isLetter, isDigit, isWordChar, Char.isAlphanum, isAlpha_eq,
    isUpper_eq, Char.isDigit, Bool.decide_and, ge_iff_le, Char.le_def]
  ac_rfl

theorem isFrameChar_eq : isFrameChar = isFrameLetter := by
  ext c
  simp only [isFrameChar, isDigit, isFrameLetter, isUpper_eq, Char.isDigit, Bool.decide_and,
    ge_iff_le, Char.le_def, List.contains_cons, List.contains_nil, Bool.or_false]
  ac_rfl

/-- ASCII characters take a byte each. -/
theorem byteCount_eq_length {chars : List Char} (h : ∀ c ∈ chars, c.toNat ≤ 127) :
    byteCount chars = chars.length := by
  induction chars with
  | nil => rfl
  | cons c rest ih =>
    have hsize : c.utf8Size = 1 := if_pos (h c List.mem_cons_self)
    have hrest := ih fun d hmem => h d (List.mem_cons_of_mem _ hmem)
    rw [byteCount_cons, hsize, hrest, List.length_cons]
    omega

theorem length_le_byteCount (chars : List Char) : chars.length ≤ byteCount chars := by
  induction chars with
  | nil => exact Nat.le_refl 0
  | cons c rest ih =>
    have hsize := c.utf8Size_pos
    rw [byteCount_cons, List.length_cons]
    omega

end Text

open Text

/-- What is taken as a bare sprite is one. -/
theorem isSprite_of_bareSprite? {chars : List Char} {size : Nat}
    (h : bareSprite? chars = some size) : IsSprite (chars.take size) (chars.drop size) := by
  unfold bareSprite? at h
  split at h
  case h_2 => cases h
  case h_1 a b c d rest =>
    dsimp only at h
    split at h
    case isFalse => cases h
    case isTrue hword =>
      obtain rfl := Option.some.inj h
      obtain ⟨hword, hnext⟩ := Bool.and_eq_true_iff.mp hword
      refine Or.inl ⟨rfl, ?_, ?_⟩
      · rcases Bool.or_eq_true_iff.mp hword with hword | hword
        · rw [isSpriteChar_eq] at hword
          exact Or.inl hword
        · exact Or.inr (by simpa using hword)
      · intro next hmem
        change next ∈ rest.head? at hmem
        rw [Option.mem_def.mp hmem] at hnext
        simpa [isSpriteChar_eq] using hnext

/-- What is taken as a quoted sprite is one. -/
theorem isSprite_of_quotedSprite? {chars : List Char} {size : Nat}
    (h : quotedSprite? chars = some size) : IsSprite (chars.take size) (chars.drop size) := by
  unfold quotedSprite? at h
  split at h
  case h_2 => cases h
  case h_1 a b c d rest =>
    split at h
    case isFalse => cases h
    case isTrue hinner =>
      obtain rfl := Option.some.inj h
      refine Or.inr ⟨[a, b, c, d], rfl, rfl, ?_⟩
      intro c hmem
      have hc := List.all_eq_true.mp hinner c hmem
      simpa [isQuotedSpriteChar, isSpriteChar_eq, or_assoc] using hc

theorem isSprite_of_sprite? {chars : List Char} {size : Nat} (h : sprite? chars = some size) :
    IsSprite (chars.take size) (chars.drop size) := by
  unfold sprite? at h
  split at h
  · exact isSprite_of_quotedSprite? h
  · exact isSprite_of_bareSprite? h

/-- Frames without quotes are frame letters that no character of a sprite follows. -/
theorem of_bareFrames? {chars : List Char} {size : Nat} (h : bareFrames? chars = some size) :
    chars.take size ≠ [] ∧ (chars.take size).all isFrameChar = true ∧
      (chars.drop size).head?.any isSpriteChar = false := by
  unfold bareFrames? at h
  obtain ⟨hrun, hsize⟩ := Option.ite_none_left_eq_some.mp h
  obtain rfl := Option.some.inj hsize
  obtain ⟨hfull, hnext⟩ := not_or.mp (mt Bool.or_eq_true_iff.mpr hrun)
  have htake : chars.take (chars.takeWhile isFrameChar).length = chars.takeWhile isFrameChar :=
    (List.prefix_iff_eq_take.mp (List.takeWhile_prefix _)).symm
  rw [htake]
  exact ⟨by simpa using hfull, List.all_takeWhile, Bool.eq_false_iff.mpr hnext⟩

theorem isFrames_of_bareFrames? {chars : List Char} {size : Nat}
    (h : bareFrames? chars = some size) : IsFrames (chars.take size) (chars.drop size) := by
  obtain ⟨hfull, hall, hnext⟩ := of_bareFrames? h
  rw [isFrameChar_eq] at hall
  rw [isSpriteChar_eq] at hnext
  refine Or.inl ⟨hfull, hall, fun next hmem => ?_⟩
  rwa [Option.mem_def.mp hmem] at hnext

/-- Frames between quotes are taken with as many characters more as they have bytes to spare. -/
theorem isFrames_of_quotedFrames? {rest : List Char} {size : Nat}
    (h : quotedFrames? ('"' :: rest) = some size) :
    IsFrames (('"' :: rest).take size) (('"' :: rest).drop size) ∨
      Overruns (('"' :: rest).take size) (('"' :: rest).drop size) := by
  let inner := rest.takeWhile fun c => c != '"' && c != '\n'
  have hclosed : (rest.drop inner.length).head? = some '"' ∧ inner ≠ [] ∧
      byteCount inner + 2 = size := by
    simp only [quotedFrames?, List.drop_succ_cons, List.drop_zero, Option.ite_none_right_eq_some,
      Nat.add_comm 1, Bool.and_eq_true, beq_iff_eq, Option.some.injEq] at h
    obtain ⟨⟨hhead, hfull⟩, hsize⟩ := h
    rw [Bool.not_eq_true', List.isEmpty_eq_false_iff] at hfull
    exact ⟨hhead, hfull, hsize⟩
  obtain ⟨hhead, hfull, rfl⟩ := hclosed
  obtain ⟨tail, htail⟩ := List.head?_eq_some_iff.mp hhead
  have hrest : rest = inner ++ '"' :: tail := by
    rw [← htail]
    have htake : rest.take inner.length = inner :=
      (List.prefix_iff_eq_take.mp (List.takeWhile_prefix _)).symm
    conv_lhs => rw [← List.take_append_drop inner.length rest, htake]
  have hinner : IsInner inner := by
    refine ⟨hfull, fun c hmem => ?_⟩
    have hall : inner.all (fun c => c != '"' && c != '\n') = true := List.all_takeWhile
    simpa using List.all_eq_true.mp hall c hmem
  let excess := byteCount inner - inner.length
  have hle := length_le_byteCount inner
  have hsize : byteCount inner + 1 = inner.length + (excess + 1) := by omega
  have htake : ('"' :: rest).take (byteCount inner + 2) =
      '"' :: (inner ++ '"' :: tail.take excess) := by
    rw [List.take_succ_cons, hsize, hrest, List.take_length_add_append, List.take_succ_cons]
  have hdrop : ('"' :: rest).drop (byteCount inner + 2) = tail.drop excess := by
    rw [List.drop_succ_cons, hsize, hrest, List.drop_length_add_append, List.drop_succ_cons]
  rw [htake, hdrop]
  by_cases hascii : ∃ c ∈ inner, 127 < c.toNat
  · refine Or.inr ⟨inner, tail.take excess, rfl, hinner, hascii, ?_⟩
    rw [List.take_append_drop]
  · have hnone : excess = 0 := by
      have hbytes := byteCount_eq_length fun c hmem => Nat.le_of_not_lt fun hlt =>
        hascii ⟨c, hmem, hlt⟩
      omega
    rw [hnone]
    exact Or.inl (Or.inr ⟨inner, rfl, hinner⟩)

theorem isFrames_of_frames? {chars : List Char} {size : Nat} (h : frames? chars = some size) :
    IsFrames (chars.take size) (chars.drop size) ∨
      Overruns (chars.take size) (chars.drop size) := by
  unfold frames? at h
  split at h
  case isTrue hquote =>
    obtain ⟨rest, rfl⟩ := List.head?_eq_some_iff.mp (beq_iff_eq.mp hquote)
    exact isFrames_of_quotedFrames? h
  case isFalse => exact Or.inl (isFrames_of_bareFrames? h)

/-- Only the forms that are meant for them are read as sprites and as frames. -/
theorem exists_of_stateWord (mode : LexMode) (preceding : Kind) (chars : List Char) :
    ((scan mode preceding chars).kind = .sprite →
      ∃ size, sprite? chars = some size ∧ scan mode preceding chars = .sound .sprite size) ∧
    ((scan mode preceding chars).kind = .frames →
      ∃ size, frames? chars = some size ∧ scan mode preceding chars = .sound .frames size) := by
  rcases scan_cases mode preceding chars with hspecial | hordinary
  · obtain ⟨size, hsize, hfound⟩ | ⟨size, hsize, hfound⟩ | ⟨-, hfound⟩ := Scan.special?_eq hspecial
    · exact ⟨fun _ => ⟨size, hsize, hfound⟩, fun h => absurd (hfound ▸ h) nofun⟩
    · exact ⟨fun h => absurd (hfound ▸ h) nofun, fun _ => ⟨size, hsize, hfound⟩⟩
    · exact ⟨fun h => absurd (hfound ▸ h) nofun, fun h => absurd (hfound ▸ h) nofun⟩
  · -- no ordinary token is a word of a state line
    have hkind := hordinary.kind_mem
    refine ⟨fun h => ?_, fun h => ?_⟩
    · rw [h] at hkind
      exact absurd hkind (by decide)
    · rw [h] at hkind
      exact absurd hkind (by decide)

/-- What is read as a sprite or as frames has the form of them. -/
theorem scan_stateWord (mode : LexMode) (preceding : Kind) (chars : List Char) :
    ((scan mode preceding chars).kind = .sprite →
      IsSprite (chars.take (scan mode preceding chars).size)
        (chars.drop (scan mode preceding chars).size)) ∧
    ((scan mode preceding chars).kind = .frames →
      IsFrames (chars.take (scan mode preceding chars).size)
          (chars.drop (scan mode preceding chars).size) ∨
        Overruns (chars.take (scan mode preceding chars).size)
          (chars.drop (scan mode preceding chars).size)) := by
  obtain ⟨hsprite, hframes⟩ := exists_of_stateWord mode preceding chars
  constructor
  · intro hkind
    obtain ⟨size, hsize, hfound⟩ := hsprite hkind
    rw [hfound]
    exact isSprite_of_sprite? hsize
  · intro hkind
    obtain ⟨size, hsize, hfound⟩ := hframes hkind
    rw [hfound]
    exact isFrames_of_frames? hsize

namespace Lexer

/-- However a lexer is used, every sprite has its documented form, and so have all frames but those
that run past their closing quote. -/
theorem history_stateWords (text : String) (uses : List Use) :
    ∀ line ∈ ((History.ofText text).run uses).lines,
      ∀ token ∈ line.taken ++ [line.lexer.current], ∃ after, token.StandsBefore text after ∧
        (token.kind = .sprite → IsSprite token.text.toList after) ∧
        (token.kind = .frames →
          IsFrames token.text.toList after ∨ Overruns token.text.toList after) := by
  intro line hline token hmem
  have hreads := (History.reads_run text uses line hline).take
  obtain ⟨lexer, hreached, rfl⟩ := hreads.exists_reached hmem
  refine ⟨_, hreached.standsBefore, ?_⟩
  rw [hreached.placed.kind_eq, hreached.placed.text_eq]
  exact scan_stateWord _ _ _

/-- The two words of a state line. -/
theorem history_stateWords_of_line :
    (((History.ofText "TNT1 AB 3").run [.relex .sprite, .next, .relex .frames]).lines.map
      fun line => (line.taken ++ [line.lexer.current]).map fun token =>
        (token.kind, token.text)) = [[(.sprite, "TNT1"), (.frames, "AB")]] ∧
    ∀ line ∈ ((History.ofText "TNT1 AB 3").run [.relex .sprite, .next, .relex .frames]).lines,
      ∀ token ∈ line.taken ++ [line.lexer.current],
        ∃ after, token.StandsBefore "TNT1 AB 3" after ∧
          (token.kind = .sprite → IsSprite token.text.toList after) ∧
          (token.kind = .frames →
            IsFrames token.text.toList after ∨ Overruns token.text.toList after) :=
  ⟨by decide +kernel, history_stateWords _ _⟩

/-- A letter of two bytes between the quotes of frames makes them take a character more. -/
theorem history_frames_overrun :
    let token := ((History.ofText "\"é\"x").run [.relex .frames]).current.lexer.current
    token.kind = .frames ∧ token.text = "\"é\"x" ∧
      ∀ after, ¬ IsFrames token.text.toList after := by
  have htoken : ((History.ofText "\"é\"x").run [.relex .frames]).current.lexer.current.kind =
      .frames ∧ ((History.ofText "\"é\"x").run [.relex .frames]).current.lexer.current.text =
        "\"é\"x" := by decide +kernel
  refine ⟨htoken.1, htoken.2, fun after h => ?_⟩
  rw [htoken.2] at h
  rcases h with ⟨-, hall, -⟩ | ⟨inner, hquoted, -⟩
  · exact absurd hall (by decide)
  · -- quoted frames end in a quote, and these do not
    have hlast := congrArg List.getLast? hquoted
    rw [← List.cons_append, List.getLast?_concat] at hlast
    exact absurd hlast (by decide)

end Lexer

end ScriptTree

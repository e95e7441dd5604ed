import ScriptTree.Literal.Quoted
import ScriptTree.Proofs.IntegerLiterals

/-!
The escapes of strings. What belongs to a backslash stands for a character or for nothing: a letter
for one character each, a line break for nothing, and a number for the character that has it. A
number takes the digits that follow, as many as its form allows; numbers that no character has are
no escapes. Reading a string from the left, the characters are told one unit after the other, up to
the first backslash that starts no escape.
-/

namespace ScriptTree

open Text

namespace QuotedLiteral

open Integer (Base figureValue)

def letters : List (Char × Char) :=
  [('n', '\n'), ('t', '\t'), ('r', '\r'), ('a', '\x07'), ('b', '\x08'), ('f', '\x0C'),
   ('v', '\x0B'), ('\\', '\\'), ('"', '"'), ('\'', '\''), ('?', '?')]

inductive Form where
  | octal | hexadecimal | short | long
  deriving DecidableEq, Repr

namespace Form

def mark : Form → List Char
  | octal => []
  | hexadecimal => ['x']
  | short => ['u']
  | long => ['U']

def base : Form → Base
  | octal => .octal
  | _ => .hexadecimal

def least : Form → Nat
  | octal => 1
  | hexadecimal => 1
  | short => 4
  | long => 8

def most : Form → Nat
  | octal => 3
  | hexadecimal => 4
  | short => 4
  | long => 8

def IsDigit (form : Form) (c : Char) : Prop :=
  c ∈ form.base.digits ∧ figureValue c < form.base.radix

end Form

structure Names (form : Form) (digits after : List Char) (c : Char) : Prop where
  valid : ∀ d ∈ digits, form.IsDigit d
  least : form.least ≤ digits.length
  most : digits.length ≤ form.most
  longest : digits.length < form.most → ∀ d ∈ after.head?, ¬ form.IsDigit d
  value : c.toNat = Nat.ofDigits form.base.radix (digits.map figureValue).reverse

/-- What stands behind a backslash and in front of the characters `after` is an escape, and what it
stands for. -/
inductive Escape (after : List Char) : List Char → List Char → Prop where
  | letter {c d : Char} (known : (c, d) ∈ letters) : Escape after [c] [d]
  | lineBreak : Escape after ['\n'] []
  | number {form : Form} {digits : List Char} {c : Char} (names : Names form digits after c) :
      Escape after (form.mark ++ digits) [c]

def Escapes (chars : List Char) : Prop :=
  ∃ written after meaning, chars = written ++ after ∧ Escape after written meaning

/-- Characters in front of the characters `after` are units one after the other, plain characters
and escapes, and what they stand for. -/
inductive Units (after : List Char) : List Char → List Char → Prop where
  | nil : Units after [] []
  | plain {c : Char} {front decoded : List Char} (unmarked : c ≠ '\\')
      (rest : Units after front decoded) : Units after (c :: front) (c :: decoded)
  | escape {written meaning front decoded : List Char}
      (escape : Escape (front ++ after) written meaning) (rest : Units after front decoded) :
      Units after ('\\' :: (written ++ front)) (meaning ++ decoded)

/-- A digit of a form is what is read as one. -/
theorem Form.isDigit_iff (form : Form) (c : Char) :
    form.IsDigit c ↔ isDigitOf form.base.radix c = true := by
  constructor
  · rintro ⟨hmem, hlt⟩
    rw [isDigitOf, Base.digitValue?_eq hmem, if_pos hlt]
    rfl
  · intro h
    have hmem := Base.mem_digits h
    rw [isDigitOf, Base.digitValue?_eq hmem] at h
    refine ⟨hmem, ?_⟩
    by_contra hlt
    rw [if_neg hlt] at h
    cases h

theorem Form.digitValue?_eq {form : Form} {c : Char} (h : form.IsDigit c) :
    digitValue? form.base.radix c = some (figureValue c) := by
  rw [Base.digitValue?_eq h.1, if_pos h.2]

/-- Reading digits from the left makes the number that they name. -/
theorem Form.foldl_eq_carry {form : Form} {digits : List Char}
    (h : ∀ d ∈ digits, form.IsDigit d) (value : Nat) :
    digits.foldl (fun value c => value * form.base.radix +
      (digitValue? form.base.radix c).getD 0) value =
        form.base.carry value (digits.map figureValue) := by
  induction digits generalizing value with
  | nil => rfl
  | cons d rest ih =>
    obtain ⟨hd, hrest⟩ := List.forall_mem_cons.mp h
    have hstep : value * form.base.radix + (digitValue? form.base.radix d).getD 0 =
        figureValue d + form.base.radix * value := by
      rw [digitValue?_eq hd, Option.getD_some, Nat.mul_comm, Nat.add_comm]
    rw [List.foldl_cons, hstep]
    exact ih hrest _

/-- Fitting characters are all that is taken of no more than `most` characters, unless there is room
for one that fits too. -/
theorem takeWhile_take_append_eq_iff {p : Char → Bool} {most : Nat} {front after : List Char}
    (hfront : ∀ c ∈ front, p c = true) (hmost : front.length ≤ most) :
    ((front ++ after).take most).takeWhile p = front ↔
      (front.length < most → ∀ c ∈ after.head?, p c = false) := by
  have hsplit : ((front ++ after).take most).takeWhile p =
      front ++ (after.take (most - front.length)).takeWhile p := by
    rw [List.take_append, List.take_of_length_le hmost, List.takeWhile_append_of_pos hfront]
  rw [hsplit, List.append_right_eq_self]
  cases after with
  | nil => simp
  | cons c rest =>
    by_cases hroom : front.length < most
    · obtain ⟨count, hcount⟩ := Nat.exists_eq_add_one_of_ne_zero (Nat.sub_ne_zero_of_lt hroom)
      rw [hcount, List.take_succ_cons, List.takeWhile_cons]
      cases hc : p c <;> simp [hroom, hc]
    · rw [Nat.sub_eq_zero_of_le (Nat.le_of_not_lt hroom)]
      simp [hroom]

/-- Exactly the numbers of characters name one. -/
theorem scalar?_eq_some_iff {number : Nat} {c : Char} :
    scalar? number = some c ↔ c.toNat = number := by
  unfold scalar?
  constructor
  · intro h
    obtain ⟨hvalid, hc⟩ := Option.ite_none_right_eq_some.mp h
    obtain rfl := Option.some.inj hc
    rw [Char.ofNat, dif_pos hvalid]
    rfl
  · rintro rfl
    have hvalid : c.toNat.isValidChar := c.valid
    rw [if_pos hvalid, Char.ofNat_toNat]

/-- Reading a number finds the longest run of digits, and the character that the run names. -/
theorem numbered?_eq_some_iff {form : Form} {chars : List Char} {c : Char} {size : Nat} :
    numbered? form.base.radix form.least form.most chars = some (c, size) ↔
      ∃ digits after, chars = digits ++ after ∧ digits.length = size ∧
        Names form digits after c := by
  let run := (chars.take form.most).takeWhile (isDigitOf form.base.radix)
  have hnumbered : numbered? form.base.radix form.least form.most chars =
      if form.least ≤ run.length then
        (scalar? (run.foldl (fun value c => value * form.base.radix +
          (digitValue? form.base.radix c).getD 0) 0)).map (·, run.length)
      else none := by
    simp only [numbered?, guard, run]
    split
    · simp only [Option.pure_def, Option.bind_eq_bind, Option.bind_some]
      cases scalar? _ <;> rfl
    · rfl
  have hdigit (digits : List Char) : (∀ d ∈ digits, form.IsDigit d) ↔
      ∀ d ∈ digits, isDigitOf form.base.radix d = true :=
    forall₂_congr fun d _ => form.isDigit_iff d
  rw [hnumbered, Option.ite_none_right_eq_some, Option.map_eq_some_iff]
  constructor
  · rintro ⟨hleast, d, hscalar, hpair⟩
    obtain ⟨rfl, rfl⟩ := Prod.mk.inj hpair
    have hvalid : ∀ d ∈ run, isDigitOf form.base.radix d = true :=
      List.all_eq_true.mp List.all_takeWhile
    have hmost : run.length ≤ form.most :=
      (List.takeWhile_prefix _).length_le.trans (List.length_take_le _ _)
    obtain ⟨after, hafter⟩ : run <+: chars :=
      (List.takeWhile_prefix _).trans (List.take_prefix _ _)
    have hlongest := (takeWhile_take_append_eq_iff hvalid hmost).mp (by rw [hafter])
    refine ⟨run, after, hafter.symm, rfl, (hdigit run).mpr hvalid, hleast, hmost, ?_, ?_⟩
    · intro hroom d hhead
      rw [form.isDigit_iff, hlongest hroom d hhead]
      exact Bool.false_ne_true
    · rw [scalar?_eq_some_iff.mp hscalar, Form.foldl_eq_carry ((hdigit run).mpr hvalid),
        Base.ofDigits_reverse]
  · rintro ⟨digits, after, hchars, rfl, hnames⟩
    have hlongest : digits.length < form.most →
        ∀ d ∈ after.head?, isDigitOf form.base.radix d = false := by
      intro hroom d hhead
      exact Bool.eq_false_iff.mpr (mt (form.isDigit_iff d).mpr (hnames.longest hroom d hhead))
    have hrun : run = digits := by
      dsimp only [run]
      rw [hchars]
      exact (takeWhile_take_append_eq_iff ((hdigit digits).mp hnames.valid) hnames.most).mpr
        hlongest
    rw [hrun, Form.foldl_eq_carry hnames.valid, ← Base.ofDigits_reverse, ← hnames.value]
    exact ⟨hnames.least, c, scalar?_eq_some_iff.mpr rfl, rfl⟩

/-- An octal digit stands for no character of its own behind a backslash. -/
theorem escape?_octal {c : Char} (h : Form.octal.IsDigit c) (rest : List Char) :
    escape? (c :: rest) =
      (numbered? 8 1 3 (c :: rest)).map fun (d, size) => ([d], size) := by
  obtain ⟨hmem, hlt⟩ := h
  simp only [Form.base, Base.digits, Integer.figures, List.take_succ_cons, List.take_zero,
    List.mem_cons, List.not_mem_nil, or_false] at hmem
  rcases hmem with rfl | rfl | rfl | rfl | rfl | rfl | rfl | rfl | rfl | rfl <;> rfl

theorem escape?_letter {c d : Char} (h : (c, d) ∈ letters) (rest : List Char) :
    escape? (c :: rest) = some ([d], 1) := by
  simp only [letters, List.mem_cons, List.not_mem_nil, or_false, Prod.mk.injEq] at h
  rcases h with ⟨rfl, rfl⟩ | ⟨rfl, rfl⟩ | ⟨rfl, rfl⟩ | ⟨rfl, rfl⟩ | ⟨rfl, rfl⟩ | ⟨rfl, rfl⟩ |
    ⟨rfl, rfl⟩ | ⟨rfl, rfl⟩ | ⟨rfl, rfl⟩ | ⟨rfl, rfl⟩ | ⟨rfl, rfl⟩ <;> rfl

/-- A number behind its mark is read as an escape. -/
theorem escape?_number {form : Form} {digits after : List Char} {c : Char}
    (h : Names form digits after c) : escape? (form.mark ++ (digits ++ after)) =
      some ([c], (form.mark ++ digits).length) := by
  have hnumbered := numbered?_eq_some_iff.mpr ⟨digits, after, rfl, rfl, h⟩
  cases form with
  | octal =>
    obtain ⟨d, rest, rfl⟩ := List.exists_cons_of_length_pos h.least
    change numbered? 8 1 3 (d :: (rest ++ after)) = _ at hnumbered
    change escape? (d :: (rest ++ after)) = _
    rw [escape?_octal (h.valid d List.mem_cons_self), hnumbered]
    rfl
  | hexadecimal | short | long =>
    exact congrArg (Option.map fun found : Char × Nat => ([found.1], found.2 + 1)) hnumbered

theorem exists_of_numbered? (form : Form) {rest meaning : List Char} {size : Nat}
    (h : (numbered? form.base.radix form.least form.most rest).map
      (fun found => ([found.1], found.2 + form.mark.length)) = some (meaning, size)) :
    ∃ written after, form.mark ++ rest = written ++ after ∧ written.length = size ∧
      Escape after written meaning := by
  obtain ⟨⟨c, count⟩, hnumbered, hfound⟩ := Option.map_eq_some_iff.mp h
  obtain ⟨rfl, rfl⟩ := Prod.mk.inj hfound
  obtain ⟨digits, after, rfl, rfl, hnames⟩ := numbered?_eq_some_iff.mp hnumbered
  refine ⟨form.mark ++ digits, after, (List.append_assoc _ _ _).symm, ?_, .number hnames⟩
  rw [List.length_append, Nat.add_comm]

/-- What is read behind a backslash is an escape, and every escape is read. -/
theorem escape?_eq_some_iff {chars meaning : List Char} {size : Nat} :
    escape? chars = some (meaning, size) ↔
      ∃ written after, chars = written ++ after ∧ written.length = size ∧
        Escape after written meaning := by
  constructor
  · intro h
    unfold escape? at h
    split at h
    · cases h
    next c rest =>
    split at h
    case h_12 =>
      obtain ⟨rfl, rfl⟩ := Prod.mk.inj (Option.some.inj h)
      exact ⟨['\n'], rest, rfl, rfl, .lineBreak⟩
    case h_13 => exact exists_of_numbered? .hexadecimal h
    case h_14 => exact exists_of_numbered? .short h
    case h_15 => exact exists_of_numbered? .long h
    case h_16 => exact exists_of_numbered? .octal h
    all_goals
      obtain ⟨rfl, rfl⟩ := Prod.mk.inj (Option.some.inj h)
      exact ⟨[_], rest, rfl, rfl, .letter (by decide)⟩
  · rintro ⟨written, after, rfl, rfl, hescape⟩
    cases hescape with
    | letter known => exact escape?_letter known after
    | lineBreak => rfl
    | number names =>
      rw [List.append_assoc]
      exact escape?_number names

/-- Nothing is read exactly where no escape starts. -/
theorem escape?_eq_none_iff {chars : List Char} : escape? chars = none ↔ ¬ Escapes chars := by
  rw [Option.eq_none_iff_forall_ne_some]
  constructor
  · rintro h ⟨written, after, meaning, hchars, hescape⟩
    exact h _ (escape?_eq_some_iff.mpr ⟨written, after, hchars, rfl, hescape⟩)
  · rintro h ⟨meaning, size⟩ hsome
    obtain ⟨written, after, hchars, -, hescape⟩ := escape?_eq_some_iff.mp hsome
    exact h ⟨written, after, meaning, hchars, hescape⟩

theorem unescape_cons {c : Char} (h : c ≠ '\\') (offset : Nat) (rest : List Char) :
    unescape offset (c :: rest) = (unescape (offset + c.utf8Size) rest).map (c :: ·) := by
  rw [unescape, if_neg (by simpa using h)]
  cases unescape (offset + c.utf8Size) rest <;> rfl

/-- An escape and what comes behind it. -/
theorem unescape_escape {rest meaning : List Char} {size : Nat}
    (h : escape? rest = some (meaning, size)) (offset : Nat) :
    unescape offset ('\\' :: rest) =
      (unescape (offset + 1 + byteCount (rest.take size)) (rest.drop size)).map (meaning ++ ·) := by
  rw [unescape, if_pos (beq_self_eq_true '\\')]
  split
  · next hnone =>
    rw [h] at hnone
    cases hnone
  · next decoded count hsome =>
    obtain ⟨rfl, rfl⟩ := Prod.mk.inj (Option.some.inj (h.symm.trans hsome))
    cases unescape _ _ <;> rfl

/-- A backslash that starts no escape is reported. -/
theorem unescape_stuck {rest : List Char} (h : ¬ Escapes rest) (offset : Nat) :
    unescape offset ('\\' :: rest) = .error (.invalidEscape offset) := by
  rw [unescape, if_pos (beq_self_eq_true '\\')]
  split
  · rfl
  · next hsome =>
    rw [escape?_eq_none_iff.mpr h] at hsome
    cases hsome

/-- Units are decoded to what they stand for, and what comes after them is decoded next. -/
theorem Units.unescape_eq {front decoded after : List Char} (h : Units after front decoded)
    (offset : Nat) : unescape offset (front ++ after) =
      (unescape (offset + byteCount front) after).map (decoded ++ ·) := by
  induction h generalizing offset with
  | nil =>
    rw [List.nil_append, byteCount_nil, Nat.add_zero]
    cases unescape offset after <;> rfl
  | @plain c front decoded unmarked rest ih =>
    rw [List.cons_append, unescape_cons unmarked, ih, byteCount_cons, Nat.add_assoc]
    cases unescape _ after <;> rfl
  | @escape written meaning front decoded escape rest ih =>
    have hescape := escape?_eq_some_iff.mpr ⟨written, front ++ after, rfl, rfl, escape⟩
    have hslash : '\\'.utf8Size = 1 := by decide
    rw [List.cons_append, List.append_assoc, unescape_escape hescape, List.take_left,
      List.drop_left, ih, byteCount_cons, byteCount_append, hslash]
    simp only [Nat.add_assoc]
    cases unescape _ after with
    | error error => rfl
    | ok more => exact congrArg Except.ok (List.append_assoc _ _ _).symm

/-- Units are told one after the other, to the end or to a backslash that starts no escape. -/
theorem exists_units (chars : List Char) :
    ∃ front after decoded, chars = front ++ after ∧ Units after front decoded ∧
      (after = [] ∨ ∃ rest, after = '\\' :: rest ∧ ¬ Escapes rest) := by
  -- the cases are those of decoding, wherever the characters stand
  obtain ⟨offset⟩ : Nonempty Nat := ⟨0⟩
  fun_induction unescape offset chars with
  | case1 => exact ⟨[], [], [], rfl, .nil, Or.inl rfl⟩
  | case2 offset c rest hslash hnone =>
    obtain rfl := beq_iff_eq.mp hslash
    exact ⟨[], '\\' :: rest, [], rfl, .nil, Or.inr ⟨rest, rfl, escape?_eq_none_iff.mp hnone⟩⟩
  | case3 offset c rest hslash meaning size hsome ih =>
    obtain rfl := beq_iff_eq.mp hslash
    obtain ⟨written, more, rfl, rfl, hescape⟩ := escape?_eq_some_iff.mp hsome
    rw [List.drop_left] at ih
    obtain ⟨front, after, decoded, rfl, hunits, hstop⟩ := ih
    refine ⟨'\\' :: (written ++ front), after, meaning ++ decoded, ?_, .escape hescape hunits,
      hstop⟩
    rw [List.cons_append, List.append_assoc]
  | case4 offset c rest hslash ih =>
    obtain ⟨front, after, decoded, rfl, hunits, hstop⟩ := ih
    exact ⟨c :: front, after, c :: decoded, rfl, .plain (by simpa using hslash) hunits, hstop⟩

end QuotedLiteral

end ScriptTree

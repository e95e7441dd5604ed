import ScriptTree.Proofs.Literal.Escape

/-!
The values of strings. A string is decoded exactly if it stands between two quotes and each of its
backslashes starts an escape. Then its value is what its characters and escapes stand for, one after
the other. Otherwise the first backslash that starts no escape is reported at its place.
-/

namespace ScriptTree

namespace QuotedLiteral

/-- What is inside quotes stands between two of them. -/
theorem inner?_eq_some_iff {quote : Char} {text : String} {inner : List Char} :
    inner? quote text = some inner ↔ text.toList = quote :: (inner ++ [quote]) := by
  unfold inner?
  split
  · next first rest htext =>
    rw [htext, Option.ite_none_right_eq_some, Bool.and_eq_true, beq_iff_eq, beq_iff_eq,
      List.getLast?_eq_some_iff, Option.some_inj, List.cons.injEq]
    constructor
    · rintro ⟨⟨rfl, front, rfl⟩, rfl⟩
      rw [List.dropLast_concat]
      exact ⟨rfl, rfl⟩
    · rintro ⟨rfl, rfl⟩
      exact ⟨⟨rfl, inner, rfl⟩, List.dropLast_concat⟩
  · next htext =>
    rw [htext]
    exact iff_of_false nofun nofun

/-- Text without a quote at each end is not closed. -/
theorem inner?_eq_none_iff {quote : Char} {text : String} :
    inner? quote text = none ↔ ¬ ∃ inner, text.toList = quote :: (inner ++ [quote]) := by
  rw [Option.eq_none_iff_forall_ne_some, not_exists]
  exact forall_congr' fun inner => not_congr inner?_eq_some_iff

/-- All in front of the first backslash that starts no escape. -/
def Stuck (inner front : List Char) : Prop :=
  ∃ rest decoded, inner = front ++ '\\' :: rest ∧ Units ('\\' :: rest) front decoded ∧
    ¬ Escapes rest

/-- Either all characters are units, or there is a first backslash that starts no escape. -/
theorem units_or_stuck (inner : List Char) :
    (∃ decoded, Units [] inner decoded) ∨ ∃ front, Stuck inner front := by
  obtain ⟨front, after, decoded, hinner, hunits, rfl | ⟨rest, rfl, hescape⟩⟩ := exists_units inner
  · rw [List.append_nil] at hinner
    exact Or.inl ⟨decoded, hinner ▸ hunits⟩
  · exact Or.inr ⟨front, rest, decoded, hinner, hunits, hescape⟩

/-- Between its quotes a string is decoded unit by unit. -/
theorem decodeString_eq {text : String} {inner : List Char}
    (h : text.toList = '"' :: (inner ++ ['"'])) :
    decodeString text = (unescape 1 inner).map String.ofList := by
  rw [decodeString, inner?_eq_some_iff.mpr h]
  dsimp only
  cases unescape 1 inner <;> rfl

theorem decodeString_of_units {text : String} {inner decoded : List Char}
    (h : text.toList = '"' :: (inner ++ ['"'])) (hunits : Units [] inner decoded) :
    decodeString text = .ok (String.ofList decoded) := by
  have hrun := hunits.unescape_eq 1
  rw [List.append_nil] at hrun
  rw [decodeString_eq h, hrun, unescape]
  exact congrArg (Except.ok <| String.ofList ·) (List.append_nil decoded)

theorem decodeString_of_stuck {text : String} {inner front : List Char}
    (h : text.toList = '"' :: (inner ++ ['"'])) (hstuck : Stuck inner front) :
    decodeString text = .error (.invalidEscape (byteCount ('"' :: front))) := by
  obtain ⟨rest, decoded, rfl, hunits, hescape⟩ := hstuck
  have hquote : '"'.utf8Size = 1 := by decide
  rw [decodeString_eq h, hunits.unescape_eq, unescape_stuck hescape, byteCount_cons, hquote]
  rfl

theorem decodeString_eq_ok_iff {text : String} {inner : List Char}
    (h : text.toList = '"' :: (inner ++ ['"'])) (value : String) :
    decodeString text = .ok value ↔ Units [] inner value.toList := by
  constructor
  · intro hvalue
    rcases units_or_stuck inner with ⟨decoded, hunits⟩ | ⟨front, hstuck⟩
    · obtain rfl := Except.ok.inj ((decodeString_of_units h hunits).symm.trans hvalue)
      rwa [String.toList_ofList]
    · cases (decodeString_of_stuck h hstuck).symm.trans hvalue
  · intro hunits
    rw [decodeString_of_units h hunits, String.ofList_toList]

/-- An invalid escape is the first one, and is reported at its backslash. -/
theorem decodeString_eq_invalid_iff {text : String} {inner : List Char}
    (h : text.toList = '"' :: (inner ++ ['"'])) (offset : Nat) :
    decodeString text = .error (.invalidEscape offset) ↔
      ∃ front, Stuck inner front ∧ offset = byteCount ('"' :: front) := by
  constructor
  · intro herror
    rcases units_or_stuck inner with ⟨decoded, hunits⟩ | ⟨front, hstuck⟩
    · cases (decodeString_of_units h hunits).symm.trans herror
    · have hoffset := (decodeString_of_stuck h hstuck).symm.trans herror
      exact ⟨front, hstuck, (LiteralError.invalidEscape.inj (Except.error.inj hoffset)).symm⟩
  · rintro ⟨front, hstuck, rfl⟩
    exact decodeString_of_stuck h hstuck

theorem decodeString_eq_unterminated_iff {text : String} :
    decodeString text = .error .unterminatedString ↔
      ¬ ∃ inner, text.toList = '"' :: (inner ++ ['"']) := by
  constructor
  · rintro herror ⟨inner, h⟩
    rcases units_or_stuck inner with ⟨decoded, hunits⟩ | ⟨front, hstuck⟩
    · cases (decodeString_of_units h hunits).symm.trans herror
    · cases (decodeString_of_stuck h hstuck).symm.trans herror
  · intro hopen
    rw [decodeString, inner?_eq_none_iff.mpr hopen]
    rfl

/-- The value of every string is told by its grammar: a string without a quote at each end has none;
otherwise either all its characters are units, or some backslash is the first that starts no
escape, and its place is reported. -/
theorem strings_decode (text : String) :
    (decodeString text = .error .unterminatedString ↔
      ¬ ∃ inner, text.toList = '"' :: (inner ++ ['"'])) ∧
    ∀ inner, text.toList = '"' :: (inner ++ ['"']) →
      (∀ value, decodeString text = .ok value ↔ Units [] inner value.toList) ∧
      (∀ offset, decodeString text = .error (.invalidEscape offset) ↔
        ∃ front, Stuck inner front ∧ offset = byteCount ('"' :: front)) ∧
      ((∃ value, decodeString text = .ok value) ∨
        ∃ offset, decodeString text = .error (.invalidEscape offset)) := by
  refine ⟨decodeString_eq_unterminated_iff, fun inner h =>
    ⟨decodeString_eq_ok_iff h, decodeString_eq_invalid_iff h, ?_⟩⟩
  rcases units_or_stuck inner with ⟨decoded, hunits⟩ | ⟨front, hstuck⟩
  · exact Or.inl ⟨_, decodeString_of_units h hunits⟩
  · exact Or.inr ⟨_, decodeString_of_stuck h hstuck⟩

/-- A character of two bytes, the longest octal number with a digit behind it, and the number of no
character. -/
theorem strings_decode_surrogate :
    ("\"é\\1012\\xD800\"").toList =
      '"' :: (['é', '\\', '1', '0', '1', '2', '\\', 'x', 'D', '8', '0', '0'] ++ ['"']) ∧
    decodeString "\"é\\1012\\xD800\"" = .error (.invalidEscape 8) ∧
    ∃ front, Stuck ['é', '\\', '1', '0', '1', '2', '\\', 'x', 'D', '8', '0', '0'] front ∧
      8 = byteCount ('"' :: front) := by
  have htext : ("\"é\\1012\\xD800\"").toList =
      '"' :: (['é', '\\', '1', '0', '1', '2', '\\', 'x', 'D', '8', '0', '0'] ++ ['"']) := by decide
  have herror : decodeString "\"é\\1012\\xD800\"" = .error (.invalidEscape 8) := by
    decide +kernel
  exact ⟨htext, herror, (((strings_decode _).2 _ htext).2.1 8).mp herror⟩

end QuotedLiteral

end ScriptTree

/-!
JSON text: values whose objects keep their keys in order, printed over several lines with two
spaces for each level.
-/

namespace ScriptTree

/-- A JSON value. The only numbers are natural ones. -/
inductive Json where
  | number (value : Nat)
  | string (value : String)
  | array (items : List Json)
  | object (fields : List (String × Json))
  deriving Repr, Inhabited

namespace Json

def hexDigit (n : Nat) : Char :=
  Nat.digitChar (n % 16)

/-- One character of a JSON string. Only the quote, the backslash and the controls are escaped. -/
def escapeChar (c : Char) : String :=
  match c with
  | '"' => "\\\""
  | '\\' => "\\\\"
  | '\x08' => "\\b"
  | '\x0C' => "\\f"
  | '\n' => "\\n"
  | '\r' => "\\r"
  | '\t' => "\\t"
  | c =>
    if c.toNat < 0x20 then
      "\\u00" ++ String.ofList [hexDigit (c.toNat / 16), hexDigit c.toNat]
    else
      c.toString

def quote (text : String) : String :=
  "\"" ++ text.foldl (fun shown c => shown ++ escapeChar c) "" ++ "\""

def lineAt (level : Nat) : String :=
  "\n".pushn ' ' (2 * level)

mutual

/-- Writes a value behind `shown`. The first line of the value is already indented to `level`. -/
def write (level : Nat) (shown : String) : Json → String
  | .number value => shown ++ toString value
  | .string value => shown ++ quote value
  | .array [] => shown ++ "[]"
  | .array (item :: items) =>
    let first := write (level + 1) (shown ++ "[" ++ lineAt (level + 1)) item
    writeItems (level + 1) first items ++ lineAt level ++ "]"
  | .object [] => shown ++ "\x7b\x7d"
  | .object ((key, value) :: fields) =>
    let opened := shown ++ "\x7b" ++ lineAt (level + 1) ++ quote key ++ ": "
    let first := write (level + 1) opened value
    writeFields (level + 1) first fields ++ lineAt level ++ "\x7d"

def writeItems (level : Nat) (shown : String) : List Json → String
  | [] => shown
  | item :: items => writeItems level (write level (shown ++ "," ++ lineAt level) item) items

def writeFields (level : Nat) (shown : String) : List (String × Json) → String
  | [] => shown
  | (key, value) :: fields =>
    let shown := shown ++ "," ++ lineAt level ++ quote key ++ ": "
    writeFields level (write level shown value) fields

end

def pretty (value : Json) : String :=
  write 0 "" value

end Json

end ScriptTree

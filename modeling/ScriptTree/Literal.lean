import ScriptTree.Kind
import ScriptTree.Literal.Float
import ScriptTree.Literal.Quoted

/-!
The values of literal tokens.
-/

namespace ScriptTree

inductive LiteralValue where
  | int (value : Int64)
  | float (value : Binary64)
  | bool (value : Bool)
  | string (value : String)
  | name (value : String)
  | null
  deriving DecidableEq, Repr, Inhabited

def LiteralValue.ofToken? (kind : Kind) (text : String) : Option LiteralValue :=
  match kind with
  | .intNumber => (Integer.decode text).toOption.map .int
  | .floatNumber => (FloatLiteral.decode text).toOption.map .float
  | .string => (QuotedLiteral.decodeString text).toOption.map .string
  | .nameLiteral => (QuotedLiteral.decodeName text).toOption.map .name
  | .trueKw => some (.bool true)
  | .falseKw => some (.bool false)
  | .nullKw => some .null
  | _ => none

end ScriptTree

import ScriptTree.Grammar.Basic

/-!
Types: a name that may have arguments and further names, a class type, or a read-only type.
-/

namespace ScriptTree

namespace Grammar

/-- The names of the built-in types. One of them in parentheses makes a cast even before a sign. -/
def builtinTypes : List String :=
  ["bool", "byte", "char", "color", "double", "float", "float64", "fvector2", "fvector3",
   "fvector4", "int", "int16", "int8", "name", "quat", "sbyte", "short", "sound", "spriteid",
   "state", "string", "textureid", "uint", "uint16", "uint8", "ushort", "vector2", "vector3",
   "vector4", "void"]

def typeStart : Test :=
  .or (.seesAny [.name, .classKw]) (.and (.sees .readonlyKw) (.next .lt))

/-- The arguments of a type in angle brackets. The closing bracket stands alone even where two
lists end together. -/
def typeArguments : Clause :=
  inSlot .arguments (nodeOf .typeArguments
    [token, commaSeparated typeSpec, .relex .angle, expect .gt])

def namedType : Clause :=
  .node (steps
    [name .name,
     .branch (.sees .lt) (steps [typeArguments, .choose .genericType]) (.choose .namedType)])

def type : Clause :=
  .nested <| cases
    [(.sees .classKw, nodeOf .classType [token, when (.sees .lt) typeArguments]),
     (.sees .readonlyKw,
      nodeOf .readonlyType [token, .branch (.sees .lt) typeArguments (expect .lt)]),
     (.sees .name,
      .chain namedType pointAndName (fun _ => .scope)
        (steps [token, name .name, .choose .qualifiedType]))]
    (.missing "a type")

def typeQualifier : Clause :=
  when (.sees .constKw) (inSlot .qualifier (nodeOf .typeQualifier [token]))

end Grammar

end ScriptTree

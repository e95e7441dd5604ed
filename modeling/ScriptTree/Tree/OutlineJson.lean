import ScriptTree.Text.Json
import ScriptTree.Tree.Outline

/-!
The JSON form of outlines. Keys without content are left out.
-/

namespace ScriptTree

def Extra.toJson (extra : Extra) : Json :=
  .object
    [("kind", .string extra.kind.identifier), ("start", .number extra.span.start),
     ("end", .number extra.span.stop), ("text", .string extra.text)]

namespace Outline

def slotFields : Option Field → List (String × Json)
  | none => []
  | some field => [("field", .string field.identifier), ("field_id", .number field.id)]

def textFields : Option String → List (String × Json)
  | none => []
  | some text => [("text", .string text)]

def listFields (key : String) : List Json → List (String × Json)
  | [] => []
  | items => [(key, .array items)]

mutual

def toJson : Outline → Json
  | .element kind field span text extras children =>
    .object <|
      [("kind", .string kind.identifier), ("kind_id", .number kind.id)] ++ slotFields field ++
        [("start", .number span.start), ("end", .number span.stop)] ++ textFields text ++
        listFields "extras" (extras.map Extra.toJson) ++ listFields "children" (listToJson children)

def listToJson : List Outline → List Json
  | [] => []
  | outline :: outlines => toJson outline :: listToJson outlines

end

end Outline

end ScriptTree

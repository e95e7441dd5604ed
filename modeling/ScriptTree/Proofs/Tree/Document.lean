import ScriptTree.Proofs.Tree.Family
import ScriptTree.Proofs.Tree.Walk
import ScriptTree.Tree.OutlineJson

/-!
Outlines read back from their JSON form. A visitor goes through the objects in document order and
takes an object with a text for a token, any other object for a node. What it comes to are the
reports of a walk through the tree, each with what the tables say of the element.
-/

namespace ScriptTree

theorem Kind.ofId?_id (kind : Kind) : Kind.ofId? kind.id = some kind := by
  cases kind <;> rfl

theorem Field.ofId?_id (field : Field) : Field.ofId? field.id = some field := by
  cases field <;> rfl

theorem TriviaKind.ofIdentifier?_identifier (kind : TriviaKind) :
    TriviaKind.ofIdentifier? kind.toKind.identifier = some kind := by
  cases kind <;> decide

structure Passage where
  span : Span
  text : String
  deriving DecidableEq, Repr, Inhabited

inductive Mark where
  | enter (kind : Kind) (field : Option Field)
  | token (kind : Kind) (field : Option Field) (own : Passage)
    (extras : List (TriviaKind × Passage))
  | leave
  deriving DecidableEq, Repr, Inhabited

namespace Json

def numberAt (fields : List (String × Json)) (key : String) : Nat :=
  match fields.lookup key with
  | some (.number value) => value
  | _ => 0

def stringAt (fields : List (String × Json)) (key : String) : String :=
  match fields.lookup key with
  | some (.string value) => value
  | _ => ""

/-- The items of the array under a key of an object. There are none without the key. -/
def itemsAt (fields : List (String × Json)) (key : String) : List Json :=
  match fields.lookup key with
  | some (.array items) => items
  | _ => []

def passage (fields : List (String × Json)) : Passage :=
  ⟨⟨numberAt fields "start", numberAt fields "end"⟩, stringAt fields "text"⟩

def kindOf (fields : List (String × Json)) : Kind :=
  (Kind.ofId? (numberAt fields "kind_id")).getD default

def slotOf (fields : List (String × Json)) : Option Field :=
  (fields.lookup "field_id").bind fun
    | .number value => Field.ofId? value
    | _ => none

/-- The piece of layout that an object stands for. -/
def extra? : Json → Option (TriviaKind × Passage)
  | .object fields =>
    (TriviaKind.ofIdentifier? (stringAt fields "kind")).map fun kind => (kind, passage fields)
  | _ => none

mutual

def marks : Json → List Mark
  | .object fields =>
    if (fields.lookup "text").isSome then
      [.token (kindOf fields) (slotOf fields) (passage fields)
        ((itemsAt fields "extras").filterMap extra?)]
    else
      .enter (kindOf fields) (slotOf fields) :: (marksBelow fields ++ [.leave])
  | .array items => marksAll items
  | _ => []

def marksBelow : List (String × Json) → List Mark
  | [] => []
  | (key, value) :: fields => (if key = "children" then value.marks else []) ++ marksBelow fields

def marksAll : List Json → List Mark
  | [] => []
  | item :: items => item.marks ++ marksAll items

end

end Json

namespace Outline

def parts (kind : Kind) (field : Option Field) (span : Span) (text : Option String)
    (extras children : List Json) : List (String × Json) :=
  [("kind", .string kind.identifier), ("kind_id", .number kind.id)] ++ slotFields field ++
    [("start", .number span.start), ("end", .number span.stop)] ++ textFields text ++
    listFields "extras" extras ++ listFields "children" children

theorem toJson_eq (kind : Kind) (field : Option Field) (span : Span) (text : Option String)
    (extras : List Extra) (children : List Outline) :
    toJson (.element kind field span text extras children) =
      .object (parts kind field span text (extras.map Extra.toJson) (listToJson children)) := by
  rw [toJson]
  rfl

section Parts

variable (kind : Kind) (field : Option Field) (span : Span) (text : Option String)
  (extras children : List Json)

@[simp] theorem kindOf_parts : Json.kindOf (parts kind field span text extras children) = kind := by
  have hnumber : Json.numberAt (parts kind field span text extras children) "kind_id" =
      kind.id := rfl
  rw [Json.kindOf, hnumber, Kind.ofId?_id]
  rfl

@[simp] theorem slotOf_parts :
    Json.slotOf (parts kind field span text extras children) = field := by
  cases field with
  | some field => exact Field.ofId?_id field
  | none =>
    -- no later key is that of a slot
    cases text <;> cases extras <;> cases children <;> rfl

theorem span_parts : (Json.passage (parts kind field span text extras children)).span = span := by
  cases field <;> rfl

@[simp] theorem lookup_text_parts :
    (parts kind field span text extras children).lookup "text" = text.map .string := by
  cases field <;> cases text <;> cases extras <;> cases children <;> rfl

@[simp] theorem itemsAt_extras_parts :
    Json.itemsAt (parts kind field span text extras children) "extras" = extras := by
  cases field <;> cases text <;> cases extras <;> cases children <;> rfl

@[simp] theorem marksBelow_parts :
    Json.marksBelow (parts kind field span text extras children) = Json.marksAll children := by
  cases field <;> cases text <;> cases extras <;> cases children <;>
    simp [parts, slotFields, textFields, listFields, Json.marksBelow, Json.marks, Json.marksAll]

end Parts

theorem passage_parts (kind : Kind) (field : Option Field) (span : Span) (text : String)
    (extras children : List Json) :
    Json.passage (parts kind field span (some text) extras children) = ⟨span, text⟩ := by
  have hspan := span_parts kind field span (some text) extras children
  have htext : Json.stringAt (parts kind field span (some text) extras children) "text" = text := by
    rw [Json.stringAt, lookup_text_parts]
    rfl
  show (⟨(Json.passage _).span, Json.stringAt _ "text"⟩ : Passage) = ⟨span, text⟩
  rw [hspan, htext]

/-- A node is read back with its slot, and its children before its end. -/
theorem marks_node (kind : Kind) (field : Option Field) (span : Span) (children : List Outline) :
    (toJson (.element kind field span none [] children)).marks =
      .enter kind field :: (Json.marksAll (listToJson children) ++ [.leave]) := by
  rw [toJson_eq, Json.marks]
  simp

/-- A token is read back with its text and the layout around it. -/
theorem marks_token (kind : Kind) (field : Option Field) (span : Span) (text : String)
    (extras : List Extra) :
    (toJson (.element kind field span (some text) extras [])).marks =
      [.token kind field ⟨span, text⟩ ((extras.map Extra.toJson).filterMap Json.extra?)] := by
  rw [toJson_eq, Json.marks]
  simp [passage_parts]

theorem listToJson_eq_map (outlines : List Outline) :
    listToJson outlines = outlines.map toJson := by
  induction outlines with
  | nil => simp [listToJson]
  | cons outline rest ih => simp [listToJson, ih]

end Outline

namespace Json

theorem marksAll_eq_flatMap (items : List Json) : marksAll items = items.flatMap marks := by
  induction items with
  | nil => simp [marksAll]
  | cons item rest ih => simp [marksAll, ih]

end Json

namespace Tree

def shownEntry (tree : Tree) (entry : TriviaEntry) : TriviaKind × Passage :=
  (entry.kind, ⟨entry.span, tree.read entry.span⟩)

def mark (tree : Tree) : Visit → Mark
  | .enter id => .enter (tree.kind id) (tree.node id).field
  | .token id =>
    .token (tree.leaf id).kind (tree.leaf id).field ⟨(tree.leaf id).span, tree.leafText id⟩
      ((tree.leading id ++ tree.trailing id).map tree.shownEntry)
  | .leave _ => .leave

/-- The layout around a token is read back from its extras. -/
theorem filterMap_extra?_extras (tree : Tree) (id : TokenId) :
    ((tree.extras id).map Extra.toJson).filterMap Json.extra? =
      (tree.leading id ++ tree.trailing id).map tree.shownEntry := by
  have hextra (entry : TriviaEntry) :
      Json.extra? (Extra.toJson ⟨entry.kind.toKind, entry.span, tree.read entry.span⟩) =
        some (tree.shownEntry entry) := by
    let passage : Passage := ⟨entry.span, tree.read entry.span⟩
    exact congrArg (Option.map (·, passage)) (TriviaKind.ofIdentifier?_identifier entry.kind)
  rw [extras, List.map_map, List.filterMap_map]
  simp only [Function.comp_def, hextra]
  exact congrFun List.filterMap_eq_map _

theorem marks_outlineLeaf (tree : Tree) (id : TokenId) :
    (tree.outlineLeaf id).toJson.marks = [tree.mark (.token id)] := by
  rw [outlineLeaf, Outline.marks_token, filterMap_extra?_extras]
  rfl

def outlineOf (tree : Tree) (limit : Nat) : Element → Outline
  | .node id => tree.outlineUpTo id limit
  | .token id => tree.outlineLeaf id

theorem outlineUpTo_succ (tree : Tree) (id : NodeId) (limit : Nat) :
    tree.outlineUpTo id (limit + 1) =
      .element (tree.kind id) (tree.node id).field (tree.trimmedSpan id) none []
        ((tree.elements id).map (tree.outlineOf limit)) := by
  rw [outlineUpTo]
  rfl

/-- A node that is not cut off is read back with what is below it. -/
theorem marks_outlineUpTo_succ (tree : Tree) (id : NodeId) (limit : Nat) :
    (tree.outlineUpTo id (limit + 1)).toJson.marks =
      tree.mark (.enter id) ::
        ((tree.elements id).flatMap (fun element => (tree.outlineOf limit element).toJson.marks) ++
          [tree.mark (.leave id)]) := by
  rw [outlineUpTo_succ, Outline.marks_node, Outline.listToJson_eq_map, Json.marksAll_eq_flatMap,
    List.map_map, List.flatMap_map]
  rfl

end Tree

namespace Shape

mutual

/-- The JSON form of an element shows the walk through its shape. -/
theorem Sits.marks_outline {tree : Tree} : ∀ {shape : Shape} {home : Option NodeId} {site : Site}
    {limit : Nat}, shape.Sits tree home site → shape.size ≤ limit →
    (tree.outlineOf limit (shape.element site)).toJson.marks =
      (shape.visits (fun _ => false) site).map tree.mark
  | .leaf token field, home, site, limit, _, _ => by
    rw [visits]
    exact tree.marks_outlineLeaf site.token
  | .node kind field children, home, site, 0, _, hsize => by
    rw [size] at hsize
    omega
  | .node kind field children, home, site, limit + 1, h, hsize => by
    obtain ⟨hlists, hall⟩ := h
    rw [size] at hsize
    have hinside := SitsAll.marks_outline hall (Nat.le_of_succ_le_succ hsize)
    rw [element, Tree.outlineOf, Tree.marks_outlineUpTo_succ, hlists.elements, hinside, visits]
    simp

theorem SitsAll.marks_outline {tree : Tree} : ∀ {shapes : List Shape} {home : Option NodeId}
    {site : Site} {limit : Nat}, SitsAll tree home shapes site → sizeAll shapes ≤ limit →
    (elementsFrom site shapes).flatMap
        (fun element => (tree.outlineOf limit element).toJson.marks) =
      (visitsAll (fun _ => false) shapes site).map tree.mark
  | [], home, site, limit, _, _ => by simp [elementsFrom, visitsAll]
  | shape :: rest, home, site, limit, h, hsize => by
    rw [sizeAll] at hsize
    have hfirst := Sits.marks_outline h.1 (show shape.size ≤ limit by omega)
    have hrest := SitsAll.marks_outline h.2 (show sizeAll rest ≤ limit by omega)
    rw [elementsFrom, List.flatMap_cons, hfirst, hrest, visitsAll, List.map_append]

end

end Shape

/-- A visitor of the JSON form of a tree comes to what a walk from the root reports. -/
theorem Tree.Houses.marks_outline {tree : Tree} {whole : Shape} (h : tree.Houses whole) :
    tree.outline.toJson.marks = (tree.visits Tree.root).map tree.mark := by
  obtain ⟨kind, field, children, rfl⟩ := h.exists_whole
  have hvisits := h.visitsSkipping_eq .whole fun _ => false
  have hmarks := Shape.Sits.marks_outline h.sits (Nat.le_of_eq h.nodes.symm)
  rw [← hvisits] at hmarks
  exact hmarks

end ScriptTree

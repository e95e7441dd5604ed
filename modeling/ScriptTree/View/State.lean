import ScriptTree.View.Definition

/-!
Views of blocks of states.
-/

namespace ScriptTree

variable {tree : Tree}

abbrev StateLabel (tree : Tree) := View tree (· == .stateLabel)

abbrev StateLine (tree : Tree) := View tree (· == .stateLine)

abbrev StateDuration (tree : Tree) := View tree (· == .stateDuration)

abbrev StateModifier (tree : Tree) := View tree (· == .stateModifier)

abbrev StateAction (tree : Tree) := View tree (· == .stateAction)

abbrev StateFlow (tree : Tree) := View tree (· == .stateFlow)

abbrev GotoTarget (tree : Tree) := View tree (· == .gotoTarget)

def StatesBlock.items (block : StatesBlock tree) : List (StateItem tree) :=
  block.parts

def StateLabel.name (label : StateLabel tree) : Option String :=
  label.nameText?

namespace StateLine

def sprite (line : StateLine tree) : Option TokenId :=
  line.token? .sprite

def frames (line : StateLine tree) : Option TokenId :=
  line.token? .frames

def duration (line : StateLine tree) : Option (StateDuration tree) :=
  line.child? .duration

def modifiers (line : StateLine tree) : List (StateModifier tree) :=
  line.children .modifier

def action (line : StateLine tree) : Option (StateAction tree) :=
  line.child? .action

end StateLine

namespace StateDuration

def tics (duration : StateDuration tree) : Option Int64 := do
  let first ← (tree.childNodes duration.node).head?
  let literal : Literal tree ← View.cast? tree first
  match ← literal.value with
  | .int value => return value
  | _ => none

def isRandom (duration : StateDuration tree) : Bool :=
  duration.hasPart .randomDuration

end StateDuration

def StateModifier.keyword (modifier : StateModifier tree) : Option String :=
  (modifier.token? .name).map fun token => Text.lower (tree.leafText token)

namespace StateAction

def call (action : StateAction tree) : Option (Expression tree) :=
  action.parts.head?

def block (action : StateAction tree) : Option (CompoundStatement tree) :=
  action.parts.head?

end StateAction

inductive FlowKind where
  | loop | stop | wait | fail | goto
  deriving DecidableEq, Repr, Inhabited

namespace FlowKind

def ofWord? : String → Option FlowKind
  | "loop" => some .loop
  | "stop" => some .stop
  | "wait" => some .wait
  | "fail" => some .fail
  | "goto" => some .goto
  | _ => none

def title : FlowKind → String
  | .loop => "Loop"
  | .stop => "Stop"
  | .wait => "Wait"
  | .fail => "Fail"
  | .goto => "Goto"

end FlowKind

namespace StateFlow

def kind (flow : StateFlow tree) : Option FlowKind := do
  let token ← tree.firstToken? flow.node
  FlowKind.ofWord? (Text.lower (tree.leafText token))

def target (flow : StateFlow tree) : Option (GotoTarget tree) :=
  flow.child? .target

end StateFlow

namespace GotoTarget

def scope (target : GotoTarget tree) : Option String :=
  (tree.elementIn? target.node .scope).map tree.elementText

def label (target : GotoTarget tree) : Option String :=
  (tree.nodeIn? target.node .label).map tree.nodeText

def offset (target : GotoTarget tree) : Option Int64 := do
  let clause ← tree.nodeIn? target.node .offset
  let token ← tree.tokenOf? clause .intNumber
  (Integer.decode (tree.leafText token)).toOption

end GotoTarget

end ScriptTree

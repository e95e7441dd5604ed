/-!
The named slots of a node. A child may fill one slot of its parent, such as the `left` operand of
a binary expression; the numbers and identifiers of slots are as stable as those of kinds.
-/

namespace ScriptTree

inductive Field where
  | name | parent | replaces | target | flags | body | modifiers | returnTypes | parameters
  | qualifier | type | declarator | value | left | operator | right | condition | consequence
  | alternative | function | arguments | object | member | index | operand | scope | label
  | offset | sprite | frames | duration | modifier | action | initializer | update | key
  | iterable | size | minimum | maximum | path | version | message | component | targets
  deriving DecidableEq, Repr, Inhabited

namespace Field

def all : List Field :=
  [.name, .parent, .replaces, .target, .flags, .body, .modifiers, .returnTypes, .parameters,
   .qualifier, .type, .declarator, .value, .left, .operator, .right, .condition, .consequence,
   .alternative, .function, .arguments, .object, .member, .index, .operand, .scope, .label,
   .offset, .sprite, .frames, .duration, .modifier, .action, .initializer, .update, .key,
   .iterable, .size, .minimum, .maximum, .path, .version, .message, .component, .targets]

def id (field : Field) : Nat :=
  field.ctorIdx

def ofId? (n : Nat) : Option Field :=
  all[n]?

def identifier : Field → String
  | .name => "name"
  | .parent => "parent"
  | .replaces => "replaces"
  | .target => "target"
  | .flags => "flags"
  | .body => "body"
  | .modifiers => "modifiers"
  | .returnTypes => "return_types"
  | .parameters => "parameters"
  | .qualifier => "qualifier"
  | .type => "type"
  | .declarator => "declarator"
  | .value => "value"
  | .left => "left"
  | .operator => "operator"
  | .right => "right"
  | .condition => "condition"
  | .consequence => "consequence"
  | .alternative => "alternative"
  | .function => "function"
  | .arguments => "arguments"
  | .object => "object"
  | .member => "member"
  | .index => "index"
  | .operand => "operand"
  | .scope => "scope"
  | .label => "label"
  | .offset => "offset"
  | .sprite => "sprite"
  | .frames => "frames"
  | .duration => "duration"
  | .modifier => "modifier"
  | .action => "action"
  | .initializer => "initializer"
  | .update => "update"
  | .key => "key"
  | .iterable => "iterable"
  | .size => "size"
  | .minimum => "minimum"
  | .maximum => "maximum"
  | .path => "path"
  | .version => "version"
  | .message => "message"
  | .component => "component"
  | .targets => "targets"

def title (field : Field) : String :=
  String.join <| (field.identifier.splitOn "_").map fun word =>
    match word.toList with
    | [] => ""
    | c :: rest => String.ofList (c.toUpper :: rest)

def ofIdentifier? (name : String) : Option Field :=
  all.find? fun field => field.identifier == name

end Field

end ScriptTree

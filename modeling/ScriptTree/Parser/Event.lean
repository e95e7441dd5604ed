import ScriptTree.Token
import ScriptTree.Tree.Builder

/-!
Events: a parse as a flat list of starts, tokens and ends, in which nodes can be opened in front of
what is already there.

A node starts as a blank. Completing it gives the blank a kind and writes an end; abandoning it
leaves the blank, which stands for nothing. A completed node can be preceded: a new blank is
written at the end of the list, and the node's start points forward to it, which means that the
new node starts right before the old one.
-/

namespace ScriptTree

/-- An event of a parse. The kind `tombstone` marks a blank start, and `forward` is the distance to
the start of the node that was opened in front. -/
inductive Event where
  | start (kind : Kind) (forward : Option Nat) (field : Option Field)
  | token (token : Token) (field : Option Field)
  | finish
  deriving DecidableEq, Repr, Inhabited

namespace Event

def blank : Event :=
  .start .tombstone none none

def withKind (kind : Kind) : Event → Event
  | .start _ forward field => .start kind forward field
  | event => event

def withField (field : Field) : Event → Event
  | .start kind forward _ => .start kind forward (some field)
  | event => event

def withForward (distance : Nat) : Event → Event
  | .start kind _ field => .start kind (some distance) field
  | event => event

def error? : Event → Option LexError
  | .token held _ => held.error
  | _ => none

end Event

abbrev Events := Array Event

namespace Events

def startsAt (events : Events) (mark : Nat) : Bool :=
  match events[mark]? with
  | some (.start _ _ _) => true
  | _ => false

def isBlankAt (events : Events) (mark : Nat) : Bool :=
  match events[mark]? with
  | some (.start .tombstone none _) => true
  | _ => false

def openNode (events : Events) : Events :=
  events.push .blank

def complete (events : Events) (mark : Nat) (kind : Kind) : Events :=
  (events.modify mark (Event.withKind kind)).push .finish

/-- Gives up the node that was begun at `mark`. Its blank goes away if nothing came after it. -/
def abandon (events : Events) (mark : Nat) : Events :=
  if mark + 1 = events.size then events.pop else events

def setField (events : Events) (mark : Nat) (field : Field) : Events :=
  events.modify mark (Event.withField field)

def precede (events : Events) (mark : Nat) : Events :=
  let distance := events.size - mark
  openNode (events.modify mark (Event.withForward distance))

/-- The starts that open at the event at `position`, from the inside out: its own and those that
its pointer leads to, at most `limit` of them. Blanks among them open nothing. -/
def chain (events : Events) (position : Nat) : Nat → List (Kind × Option Field)
  | 0 => []
  | limit + 1 =>
    match events[position]? with
    | some (.start kind forward field) =>
      let outer :=
        match forward with
        | none => []
        | some distance => events.chain (position + distance) limit
      if kind = .tombstone then outer else (kind, field) :: outer
    | _ => []

def isLinked (events : Events) : Bool :=
  (List.range events.size).all fun position =>
    match events[position]? with
    | some (.start _ (some distance) _) => events.startsAt (position + distance)
    | _ => true

def claim : Array Bool × Nat → Event → Array Bool × Nat
  | (marks, position), .start _ (some distance) _ =>
    (marks.setIfInBounds (position + distance) true, position + 1)
  | (marks, position), _ => (marks, position + 1)

def claimed (events : Events) : Array Bool :=
  (events.foldl claim (Array.replicate events.size false, 0)).1

/-- The steps of building for the event at `position`. A start that a pointer leads to has already
been made where the pointer comes from. -/
def stepsAt (events : Events) (claimed : Array Bool) (position : Nat) : List BuildStep :=
  match events[position]? with
  | none => []
  | some .finish => [.finish]
  | some (.token token field) =>
    [.token token.leading token.kind token.span.size token.trailing field]
  | some (.start kind _ _) =>
    if kind = .tombstone || claimed.getD position false then []
    else (events.chain position events.size).reverse.map fun (kind, field) => .start kind field

def steps (events : Events) : List BuildStep :=
  let claimed := events.claimed
  (List.range events.size).flatMap (events.stepsAt claimed)

end Events

end ScriptTree

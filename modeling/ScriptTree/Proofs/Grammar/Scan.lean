import ScriptTree.Proofs.Grammar.Sight

/-!
Scanning: a phrase is followed with sights in place of states. A scan fails unless the phrase keeps
the rules of use, every round of a loop takes a token, and rules call each other within their ranks;
otherwise it gives what is known behind the phrase for each way in which it can come out.

There are three kinds of care. With `any`, all readings are followed. With `clean`, only readings
without failure are followed, and no character that makes no token may be taken. With `strict`, all
readings are followed and no such character may be taken.
-/

namespace ScriptTree

/-- Which readings a scan follows, and whether it looks out for stray characters. -/
inductive Care where
  | any | clean | strict
  deriving DecidableEq, Repr, Inhabited

def Care.isClean : Care → Bool
  | .clean => true
  | _ => false

def Care.isTidy : Care → Bool
  | .any => false
  | _ => true

structure Exits where
  failed : Option Sight
  done : Option Sight
  chose : Option Sight
  node : Option Sight
  deriving DecidableEq, Repr, Inhabited

namespace Exits

def nowhere : Exits :=
  ⟨none, none, none, none⟩

def fits (exits : Exits) : Option Sight :=
  Sight.join exits.done (Sight.join exits.chose exits.node)

def all (exits : Exits) : Option Sight :=
  Sight.join exits.failed exits.fits

def join (a b : Exits) : Exits :=
  ⟨Sight.join a.failed b.failed, Sight.join a.done b.done, Sight.join a.chose b.chose,
    Sight.join a.node b.node⟩

def map (f : Sight → Sight) (exits : Exits) : Exits :=
  ⟨exits.failed.map f, exits.done.map f, exits.chose.map f, exits.node.map f⟩

def behind (exits : Exits) : Verdict → Option Sight
  | .failed => exits.failed
  | .done => exits.done
  | .chose _ => exits.chose
  | .node => exits.node

def leads (found sight : Option Sight) : Bool :=
  match found, sight with
  | none, _ => true
  | some _, none => false
  | some known, some sight => known.knows sight

def covers (a b : Exits) : Bool :=
  leads a.failed b.failed && leads a.done b.done && leads a.chose b.chose && leads a.node b.node

end Exits

structure Contract where
  entry : Sight
  exits : Exits
  deriving DecidableEq, Repr, Inhabited

/-- The ranks and the contracts of rules. A rule calls rules of smaller rank only, except for those
one level of nesting deeper. -/
structure Rulebook (Rule : Type) where
  rank : Rule → Nat
  contracts : Rule → Care → List Contract

def Sight.followed (sight : Option Sight) (scan : Sight → Option Exits) : Option Exits :=
  match sight with
  | none => some .nowhere
  | some sight => scan sight

def Sight.still (sight : Sight) : Sight :=
  { sight with moved := false }

def Sight.onward (sight : Sight) : Sight :=
  { sight with moved := true }

def Sight.isSteady (round : Sight → Option (Option Sight)) (sight : Sight) : Bool :=
  match round sight with
  | none => false
  | some none => true
  | some (some known) => known.knows sight

def Sight.steady? (round : Sight → Option (Option Sight)) (entry : Sight) : Option Sight :=
  let first := match round entry with
    | some (some known) => entry.either known
    | _ => entry
  [first, vague entry.room].find? fun head => entry.knows head && isSteady round head

/-- What is known behind a round that starts where a test holds. The way out that leads to another
round has to take a token. -/
def Sight.round (test : Test) (scan : Sight → Option Exits) (ends : Exits → Option (Option Sight))
    (sight : Sight) : Option (Option Sight) :=
  match sight.assume test true with
  | none => some none
  | some start =>
    match (scan start.still).bind ends with
    | none => none
    | some none => some none
    | some (some known) => if known.moved then some (some known.still) else none

def Sight.ended (test : Test) (sight head : Sight) : Option Sight :=
  join (sight.assume test false)
    (if (sight.assume test true).isSome then (head.assume test false).map onward else none)

def Exits.again (exits : Exits) : Option (Option Sight) :=
  some exits.fits

def Exits.settled (exits : Exits) : Option (Option Sight) :=
  if exits.failed.isSome || exits.done.isSome || exits.node.isSome then none else some exits.chose

namespace Phrase

open Sight

variable {Rule : Type}

/-- Follows a phrase from a sight on. Rules of a rank below `bound` may be called. -/
def scan (book : Rulebook Rule) : Phrase Rule → Care → Nat → Sight → Option Exits
  | .done, _, _, sight => some { Exits.nowhere with done := some sight }
  | .reject, _, _, sight => some { Exits.nowhere with failed := some sight }
  | .take _, care, _, sight =>
    if care.isTidy && sight.here.contains .unknown then none
    else some { Exits.nowhere with done := sight.take }
  | .expect kind _, care, _, sight =>
    if care.isTidy && kind == .unknown then none
    else
      some { Exits.nowhere with
        done := (sight.narrow 0 (·.inter (.single kind))).bind Sight.take
        failed := if care.isClean then none else sight.narrow 0 (·.without (.single kind)) }
  | .close kind, care, _, sight =>
    if care.isTidy && kind == .unknown then none
    else
      some { Exits.nowhere with
        done := Sight.join ((sight.narrow 0 (·.inter (.single kind))).bind Sight.take)
          (sight.narrow 0 (·.without (.single kind))) }
  | .missing _, care, _, sight | .refuse _, care, _, sight =>
    some { Exits.nowhere with failed := if care.isClean then none else some sight }
  | .demand kind, _, _, sight =>
    if sight.here.isSubset (.single kind) then some { Exits.nowhere with done := some sight }
    else none
  | .relex _, _, _, sight =>
    some { Exits.nowhere with done := some { vague sight.room with moved := sight.moved } }
  | .seq first second, care, bound, sight => do
    let exits ← first.scan book care bound sight
    followed exits.all (second.scan book care bound)
  | .both first second, care, bound, sight => do
    let exits ← first.scan book care bound sight
    let rest ← followed exits.fits (second.scan book care bound)
    return rest.join { Exits.nowhere with failed := exits.failed }
  | .branch test yes no, care, bound, sight => do
    let first ← followed (sight.assume test true) (yes.scan book care bound)
    let second ← followed (sight.assume test false) (no.scan book care bound)
    return first.join second
  | .loop test body, care, bound, sight => do
    let head ← steady? (round test (body.scan book care bound) Exits.again) sight.still
    let last ← followed ((head.assume test true).map still) (body.scan book care bound)
    let broken := last.failed.map fun known => { known with moved := sight.moved || known.moved }
    return { Exits.nowhere with done := Sight.join (ended test sight head) broken }
  | .choose kind, _, _, sight =>
    if kind = .tombstone then none else some { Exits.nowhere with chose := some sight }
  | .node body, care, bound, sight => do
    let exits ← body.scan book care bound sight
    return { Exits.nowhere with
      failed := Sight.join exits.failed (Sight.join exits.done exits.node)
      node := exits.chose }
  | .slot _ body, care, bound, sight => body.scan book care bound sight
  | .chain head test _ body, care, bound, sight => do
    let exits ← head.scan book care bound sight
    let failed := Sight.join exits.failed (Sight.join exits.done exits.chose)
    match exits.node with
    | none => return { Exits.nowhere with failed }
    | some sight =>
      let head ← steady? (round test (body.scan book care bound) Exits.settled) sight.still
      return { Exits.nowhere with failed, node := ended test sight head }
  | .look probe yes no, care, bound, sight => do
    let _ ← probe.scan book .any bound sight
    let first ← yes.scan book care bound sight
    let second ← no.scan book care bound sight
    return first.join second
  | .attempt body yes no, care, bound, sight => do
    let _ ← body.scan book .any bound sight
    let tried ← body.scan book .clean bound sight
    let first ← followed tried.fits (yes.scan book care bound)
    let second ← no.scan book care bound sight
    return first.join second
  | .blame shape reading, _, bound, sight => do
    let _ ← shape.scan book .any bound sight
    let _ ← reading.scan book .any bound sight
    return { Exits.nowhere with done := some sight }
  | .recover element, _, bound, sight => do
    let _ ← element.scan book .any bound sight
    let clean ← element.scan book .clean bound sight.still
    if clean.all.all (·.moved) && !sight.here.contains .eof then
      return { Exits.nowhere with done := some (vague sight.room).onward }
    else none
  | .absorb body, care, bound, sight =>
    body.scan book (if care.isClean then .strict else care) bound sight
  | .nested body, care, _, sight =>
    let blocked := if care.isClean || sight.room == some true then none
      else some { sight with room := some false }
    if sight.room = some false then some { Exits.nowhere with failed := blocked }
    else do
      let exits ← body.scan book care 8 { sight with room := none }
      return (exits.map ({ · with room := some true })).join
        { Exits.nowhere with failed := blocked }
  | .call rule, care, bound, sight =>
    if book.rank rule < bound then
      ((book.contracts rule care).find? fun contract => sight.knows contract.entry).map
        fun contract => contract.exits.map fun known =>
          { known with room := sight.room, moved := sight.moved || known.moved }
    else none

end Phrase

end ScriptTree

import ScriptTree.Kind

/-!
Sets of kinds, kept as the bits of one number. Membership, union and insertion are bit
operations, so a set written in the grammar is a single numeral once it is evaluated.
-/

namespace ScriptTree

structure KindSet where
  bits : Nat
  deriving DecidableEq, Repr, Inhabited

namespace KindSet

def empty : KindSet :=
  ⟨0⟩

def contains (set : KindSet) (kind : Kind) : Bool :=
  set.bits.testBit kind.id

def union (a b : KindSet) : KindSet :=
  ⟨a.bits ||| b.bits⟩

def single (kind : Kind) : KindSet :=
  ⟨1 <<< kind.id⟩

def insert (set : KindSet) (kind : Kind) : KindSet :=
  set.union (single kind)

def ofList (kinds : List Kind) : KindSet :=
  kinds.foldl insert empty

def toList (set : KindSet) : List Kind :=
  Kind.all.filter set.contains

theorem contains_empty (kind : Kind) : empty.contains kind = false := by
  simp [empty, contains]

theorem contains_union (a b : KindSet) (kind : Kind) :
    (a.union b).contains kind = (a.contains kind || b.contains kind) := by
  simp [union, contains]

end KindSet

end ScriptTree

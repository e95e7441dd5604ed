import Mathlib.Algebra.Group.Nat.Defs
import ScriptTree.Kind.Set

/-!
More operations on sets of kinds, and what they contain.
-/

namespace ScriptTree

theorem Kind.all_getElem_id (kind : Kind) : Kind.all[kind.id]? = some kind := by
  cases kind <;> rfl

theorem Kind.id_injective {a b : Kind} (h : a.id = b.id) : a = b := by
  have ha := all_getElem_id a
  rw [h, all_getElem_id b] at ha
  exact (Option.some.inj ha).symm

theorem Kind.id_lt (kind : Kind) : kind.id < Kind.all.length := by
  have h := all_getElem_id kind
  exact (List.getElem?_eq_some_iff.mp h).1

namespace KindSet

@[irreducible] def full : KindSet :=
  ⟨2 ^ Kind.all.length - 1⟩

def inter (a b : KindSet) : KindSet :=
  ⟨a.bits &&& b.bits⟩

def without (a b : KindSet) : KindSet :=
  ⟨a.bits ^^^ (a.bits &&& b.bits)⟩

def isSubset (a b : KindSet) : Bool :=
  a.bits &&& b.bits == a.bits

def isEmpty (set : KindSet) : Bool :=
  set.bits == 0

def isDisjoint (a b : KindSet) : Bool :=
  (a.inter b).isEmpty

@[simp] theorem contains_full (kind : Kind) : full.contains kind = true := by
  unfold full contains
  rw [Nat.testBit_two_pow_sub_one]
  exact decide_eq_true kind.id_lt

@[simp] theorem contains_inter (a b : KindSet) (kind : Kind) :
    (a.inter b).contains kind = (a.contains kind && b.contains kind) := by
  simp [inter, contains]

@[simp] theorem contains_without (a b : KindSet) (kind : Kind) :
    (a.without b).contains kind = (a.contains kind && !b.contains kind) := by
  simp only [without, contains, Nat.testBit_xor, Nat.testBit_and]
  cases a.bits.testBit kind.id <;> simp

@[simp] theorem contains_single (a b : Kind) : (single a).contains b = (a == b) := by
  simp only [single, contains, Nat.one_shiftLeft, Nat.testBit_two_pow]
  rw [Bool.eq_iff_iff, decide_eq_true_iff, beq_iff_eq]
  exact ⟨Kind.id_injective, congrArg Kind.id⟩

theorem contains_ofList {kinds : List Kind} {kind : Kind} :
    (ofList kinds).contains kind = true ↔ kind ∈ kinds := by
  have hfold (set : KindSet) : (kinds.foldl insert set).contains kind = true ↔
      set.contains kind = true ∨ kind ∈ kinds := by
    induction kinds generalizing set with
    | nil => simp
    | cons first rest ih =>
      rw [List.foldl_cons, ih, insert, contains_union, Bool.or_eq_true, contains_single,
        beq_iff_eq, List.mem_cons, or_assoc, @eq_comm _ first]
  rw [ofList, hfold, contains_empty]
  simp

theorem contains_of_isSubset {a b : KindSet} (h : a.isSubset b = true) {kind : Kind}
    (hk : a.contains kind = true) : b.contains kind = true := by
  have he : a.inter b = a := congrArg KindSet.mk (beq_iff_eq.mp h)
  rw [← he, contains_inter, Bool.and_eq_true] at hk
  exact hk.2

theorem not_isEmpty_of_contains {set : KindSet} {kind : Kind} (h : set.contains kind = true) :
    set.isEmpty = false := by
  rw [isEmpty, Bool.eq_false_iff]
  intro he
  simp [contains, beq_iff_eq.mp he] at h

theorem not_contains_of_isDisjoint {a b : KindSet} (h : a.isDisjoint b = true) {kind : Kind}
    (hk : a.contains kind = true) : b.contains kind = false := by
  rw [Bool.eq_false_iff]
  intro hb
  have hmem : (a.inter b).contains kind = true := by rw [contains_inter, hk, hb, Bool.and_self]
  exact absurd h (by rw [isDisjoint, not_isEmpty_of_contains hmem]; exact Bool.noConfusion)

end KindSet

end ScriptTree

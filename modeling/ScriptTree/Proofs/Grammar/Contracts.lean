import ScriptTree.Proofs.Grammar.Sound
import ScriptTree.Parse

/-!
The contracts of the rules of the grammar. Each is checked by scanning the phrase of its rule,
except for those of declarations, where a scan alone does not see what the shape of a call implies.
-/

namespace ScriptTree

namespace Grammar

open Sight

/-- The rank of a rule. Rules of rank zero go one level deeper at once. -/
def rank : Rule → Nat
  | .expression _ | .type | .initializers | .statement => 0
  | .arguments | .compound | .declarator => 1
  | .suffixed | .declaration => 2
  | .unary => 3
  | .member => 4

def seeing (kinds : KindSet) : Sight :=
  { vague none with here := kinds }

def moved : Sight :=
  (vague none).onward

def typeFirst : KindSet :=
  .ofList [.classKw, .readonlyKw, .name]

def entry : Rule → Sight
  | .arguments => seeing (.single .leftParen)
  | .initializers => seeing (.single .leftBrace)
  | _ => vague none

/-- What each rule does. Without failure, every rule takes a token and makes a node. An operand, a
type or a list in brackets takes a token whenever it makes a node. -/
def contracts : Rule → Care → List Contract
  | .type, .clean =>
    [⟨seeing (.without .full typeFirst), .nowhere⟩,
     ⟨vague (some false), .nowhere⟩,
     ⟨vague none, { Exits.nowhere with node := some moved }⟩]
  | .type, _ =>
    [⟨{ seeing typeFirst with room := some true },
      { Exits.nowhere with failed := some moved, node := some moved }⟩,
     ⟨vague none, { Exits.nowhere with failed := some (vague none), node := some moved }⟩]
  | .arguments, _ => [⟨entry .arguments, { Exits.nowhere with node := some moved }⟩]
  | rule, .clean => [⟨entry rule, { Exits.nowhere with node := some moved }⟩]
  | .statement, .strict | .declaration, .strict | .member, .strict => []
  | .compound, _ | .statement, _ | .declarator, _ | .declaration, _ | .member, _ =>
    [⟨vague none,
      { Exits.nowhere with failed := some (vague none), node := some (vague none) }⟩]
  | rule, _ =>
    [⟨entry rule, { Exits.nowhere with failed := some (vague none), node := some moved }⟩]

def book : Rulebook Rule :=
  ⟨rank, contracts⟩

def fulfils (phrase : Clause) (rank : Nat) (care : Care) (contract : Contract) : Bool :=
  (phrase.scan book care rank contract.entry).any (·.covers contract.exits)

/-- Scanning the phrase of a rule gives what its contracts say. -/
theorem fulfils_contracts {rule : Rule} (h : rule ≠ .declaration) (care : Care) :
    (contracts rule care).all (fulfils (grammar rule) (rank rule) care) = true := by
  cases rule with
  | declaration => exact absurd rfl h
  | expression least => cases least <;> cases care <;> decide +kernel
  | _ => cases care <;> decide +kernel

-- A type that makes a node takes a token.
example : fulfils (grammar .type) (rank .type) .clean
    ⟨vague none, { Exits.nowhere with node := some moved }⟩ = true := by
  decide +kernel

end Grammar

end ScriptTree

import ScriptTree.Parser.Phrase
import ScriptTree.Precedence

/-!
The rules of the grammar by name, and the turns of phrase that its parts share: names, lists in
brackets and bodies in braces.
-/

namespace ScriptTree

/-- The phrases that other phrases refer to by name. Every way from a rule back to itself goes
through a deeper level of nesting. -/
inductive Rule where
  /-- An expression whose operators bind at least as tightly as the level. -/
  | expression (least : Precedence)
  /-- An operand with the operators in front of it. -/
  | unary
  /-- A primary expression with calls, accesses and increments behind it. -/
  | suffixed
  /-- The arguments of a call. -/
  | arguments
  | type
  /-- A list of initial values in braces. -/
  | initializers
  | declarator
  /-- A block of statements. -/
  | compound
  | statement
  /-- A function or a field. -/
  | declaration
  /-- A member of a class or a struct. -/
  | member
  deriving DecidableEq, Repr, Inhabited

abbrev Clause := Phrase Rule

namespace Grammar

def steps : List Clause → Clause
  | [] => .done
  | [last] => last
  | first :: rest => .seq first (steps rest)

def cases (choices : List (Test × Clause)) (otherwise : Clause) : Clause :=
  choices.foldr (fun (test, clause) rest => .branch test clause rest) otherwise

def nodeOf (kind : Kind) (parts : List Clause) : Clause :=
  .node (steps (parts ++ [.choose kind]))

def inSlot (field : Field) (body : Clause) : Clause :=
  .slot (fun _ => field) body

def token : Clause :=
  .take none

def tokenIn (field : Field) : Clause :=
  .take (some field)

def expect (kind : Kind) : Clause :=
  .expect kind none

def expectIn (kind : Kind) (field : Field) : Clause :=
  .expect kind (some field)

/-- A phrase that is left out unless a test holds. -/
def when (test : Test) (body : Clause) : Clause :=
  .branch test body .done

def whenNot (test : Test) (body : Clause) : Clause :=
  .branch test .done body

def eat (kind : Kind) : Clause :=
  when (.sees kind) token

def check (test : Test) : Clause :=
  .branch test .done .reject

def errorToken (complaint : Clause) : Clause :=
  nodeOf .error [complaint, token]

def commaSeparated (element : Clause) : Clause :=
  .seq element (.loop (.sees .comma) (steps [token, element, .done]))

def name (field : Field) : Clause :=
  .branch (.sees .name) (inSlot field (nodeOf .ident [token])) (.missing "an identifier")

def pointAndName : Test :=
  .and (.sees .dot) (.next .name)

def dottedName (field : Field) : Clause :=
  .branch (.and (.next .dot) (.peek 2 (.single .name)))
    (inSlot field (nodeOf .dottedName
      [name .name, .loop pointAndName (steps [token, name .name, .done])]))
    (name field)

/-- A list of elements with commas between them, from its opening bracket on. A stray comma is
reported with the message `stray`; where a comma is missing before something that can start an
element, it is reported and the list goes on. -/
def delimited (opening close : Kind) (stray : String) (first : KindSet) (element : Clause) :
    Clause :=
  let separator : Clause :=
    cases
      [(.sees .comma, token),
       (.peek 0 first, steps [expect .comma, .done])]
      .reject
  let round : Clause :=
    .branch (.sees .comma) (errorToken (.refuse stray)) (.both element separator)
  steps
    [.demand opening, token, .loop (.not (.seesAny [close, .eof])) round, expect close]

def nameList (stray : String) (field : Field) : Clause :=
  delimited .leftParen .rightParen stray (.single .name) (name field)

def bodyItems (item : Clause) : Clause :=
  .loop (.not (.seesAny [.rightBrace, .eof])) (.recover item)

def expression : Clause :=
  .call (.expression .assignment)

def expressionIn (field : Field) : Clause :=
  inSlot field expression

def expressionList : Clause :=
  commaSeparated (expressionIn .value)

def typeSpec : Clause :=
  inSlot .type (.call .type)

end Grammar

end ScriptTree

import ScriptTree.Grammar.Statements

/-!
Blocks of states: labels, lines that show frames of a sprite for some time, and the directives that
say where to go on.
-/

namespace ScriptTree

namespace Grammar

def flagModifiers : List String :=
  ["bright", "fast", "slow", "nodelay", "canraise"]

def callModifiers : List String :=
  ["light", "offset"]

/-- Whether a directive starts here. Its words are also sprite names, so what follows decides. -/
def flowStart : Test :=
  .or (.and (.word ["loop", "stop", "wait", "fail"]) (.next .semicolon))
    (.and (.word ["goto"])
      (.and (.peek 1 (.ofList [.name, .superKw]))
        (.peek 2 (.ofList [.semicolon, .plus, .colon2, .dot]))))

def gotoTarget : Clause :=
  inSlot .target (nodeOf .gotoTarget
    [when (.next .colon2)
      (.seq (.branch (.sees .superKw) (tokenIn .scope) (name .scope)) token),
     dottedName .label,
     when (.sees .plus)
      (inSlot .offset (nodeOf .gotoOffset [token, expect .intNumber]))])

def stateFlow : Clause :=
  nodeOf .stateFlow
    [.branch (.word ["goto"]) (.seq token gotoTarget) token, expect .semicolon]

def stateDuration : Clause :=
  inSlot .duration <| nodeOf .stateDuration
    [cases
      [(.and (.word ["random"]) (.next .leftParen),
        nodeOf .randomDuration
          [token, token, expressionIn .minimum, expect .comma, expressionIn .maximum,
           expect .rightParen]),
       (.sees .name, nodeOf .nameRef [token]),
       (.seesAny [.intNumber, .floatNumber, .leftParen, .minus, .plus], .call .unary)]
      (.missing "a state duration")]

def callModifier : Test :=
  .and (.word callModifiers) (.next .leftParen)

def stateModifiers : Clause :=
  .loop (.or callModifier (.word flagModifiers)) <|
    inSlot .modifier <| nodeOf .stateModifier
      [.branch callModifier (.seq (tokenIn .name) (.call .arguments)) (tokenIn .name)]

def stateAction : Clause :=
  cases
    [(.sees .leftBrace,
      .seq (inSlot .action (nodeOf .stateAction [.call .compound])) (eat .semicolon)),
     (.seesAny [.name, .superKw],
      .seq (inSlot .action (nodeOf .stateAction [.call .suffixed])) (expect .semicolon))]
    (expect .semicolon)

/-- A line of states. Without a sprite there is nothing more to it. -/
def stateLine : Clause :=
  nodeOf .stateLine
    [.relex .sprite,
     .both (expectIn .sprite .sprite)
      (steps
        [.relex .frames, expectIn .frames .frames, stateDuration, stateModifiers, stateAction])]

def stateItem : Clause :=
  cases
    [(.label, nodeOf .stateLabel [dottedName .name, token]),
     (flowStart, stateFlow)]
    stateLine

def statesBlock : Clause :=
  nodeOf .statesBlock
    [token,
     when (.sees .leftParen)
      (inSlot .scope (nodeOf .statesScope [nameList "expected a scope name" .name])),
     .both (expect .leftBrace) (.seq (bodyItems stateItem) (.close .rightBrace))]

end Grammar

end ScriptTree

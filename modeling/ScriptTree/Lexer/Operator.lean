import ScriptTree.Kind

/-!
Punctuation and operators. What an operator is shows one character after the other: each character
that goes on with it settles which ones may still come.
-/

namespace ScriptTree

def eats (c : Char) (rest : List Char) : Bool :=
  rest.head? == some c

def assignOr (assign single : Kind) (rest : List Char) : Kind × Nat :=
  if eats '=' rest then (assign, 2) else (single, 1)

def compound (c : Char) (doubled assign single : Kind) (rest : List Char) : Kind × Nat :=
  if eats c rest then (doubled, 2) else assignOr assign single rest

/-- The kind and the length of the operator that starts with `c` in front of `rest`. A character
that starts none is unknown. -/
def operatorAt (c : Char) (rest : List Char) : Kind × Nat :=
  match c with
  | '(' => (.leftParen, 1)
  | ')' => (.rightParen, 1)
  | '[' => (.leftBracket, 1)
  | ']' => (.rightBracket, 1)
  | '{' => (.leftBrace, 1)
  | '}' => (.rightBrace, 1)
  | ';' => (.semicolon, 1)
  | ',' => (.comma, 1)
  | '?' => (.question, 1)
  | ':' => if eats ':' rest then (.colon2, 2) else (.colon, 1)
  | '.' =>
    if eats '.' rest then
      if eats '.' (rest.drop 1) then (.ellipsis, 3) else (.dot2, 2)
    else (.dot, 1)
  | '=' => if eats '=' rest then (.eq2, 2) else (.eq, 1)
  | '!' => if eats '=' rest then (.neq, 2) else (.bang, 1)
  | '~' => if ['=', '='].isPrefixOf rest then (.approxEq, 3) else (.tilde, 1)
  | '<' =>
    if eats '<' rest then
      if eats '=' (rest.drop 1) then (.shlEq, 3) else (.shl, 2)
    else if eats '=' rest then (.lteq, 2)
    else if ['>', '='].isPrefixOf rest then (.ltgteq, 3)
    else (.lt, 1)
  | '>' =>
    if eats '>' rest then
      if eats '>' (rest.drop 1) then
        if eats '=' (rest.drop 2) then (.ushrEq, 4) else (.ushr, 3)
      else if eats '=' (rest.drop 1) then (.shrEq, 3)
      else (.shr, 2)
    else if eats '=' rest then (.gteq, 2)
    else (.gt, 1)
  | '+' => compound '+' .plus2 .plusEq .plus rest
  | '-' => compound '-' .minus2 .minusEq .minus rest
  | '*' => compound '*' .star2 .starEq .star rest
  | '&' => compound '&' .amp2 .ampEq .amp rest
  | '|' => compound '|' .pipe2 .pipeEq .pipe rest
  | '/' => assignOr .slashEq .slash rest
  | '%' => assignOr .percentEq .percent rest
  | '^' => assignOr .caretEq .caret rest
  | _ => (.unknown, 1)

end ScriptTree

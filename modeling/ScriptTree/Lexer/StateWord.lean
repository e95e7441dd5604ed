import ScriptTree.Text.Letter
import ScriptTree.Text.Slice

/-!
The two words of a state line that are no ordinary tokens: the sprite, four characters long, and
the frames, a run of frame letters. Both may be quoted.
-/

namespace ScriptTree

open Text

/-- Characters of a sprite name. They also end a run of frames when they are no frame letters. -/
def isSpriteChar (c : Char) : Bool :=
  isNamePart c

def isQuotedSpriteChar (c : Char) : Bool :=
  isSpriteChar c || c == '#' || c == '-'

def isFrameChar (c : Char) : Bool :=
  ('A' ≤ c && c ≤ 'Z') || isDigit c || c == '[' || c == ']' || c == '\\' || c == '#'

def quotedSprite? (chars : List Char) : Option Nat :=
  match chars with
  | '"' :: a :: b :: c :: d :: '"' :: _ =>
    if [a, b, c, d].all isQuotedSpriteChar then some 6 else none
  | _ => none

def bareSprite? (chars : List Char) : Option Nat :=
  match chars with
  | a :: b :: c :: d :: rest =>
    let isWord := [a, b, c, d].all isSpriteChar || [a, b, c, d].all (· == '#')
    let isLonger := rest.head?.any fun next => isSpriteChar next || next == '#'
    if isWord && !isLonger then some 4 else none
  | _ => none

def sprite? (chars : List Char) : Option Nat :=
  if chars.head? == some '"' then quotedSprite? chars else bareSprite? chars

/-- The length of quoted frames at the front of the characters. There is at least one character
between the quotes, and the length is two more than the bytes between them: where these are not
ASCII, the token runs on past its closing quote. -/
def quotedFrames? (chars : List Char) : Option Nat :=
  let inner := (chars.drop 1).takeWhile fun c => c != '"' && c != '\n'
  if (chars.drop (1 + inner.length)).head? == some '"' && !inner.isEmpty then
    some (byteCount inner + 2)
  else
    none

def bareFrames? (chars : List Char) : Option Nat :=
  let run := chars.takeWhile isFrameChar
  let isLonger := (chars.drop run.length).head?.any isSpriteChar
  if run.isEmpty || isLonger then none else some run.length

def frames? (chars : List Char) : Option Nat :=
  if chars.head? == some '"' then quotedFrames? chars else bareFrames? chars

end ScriptTree

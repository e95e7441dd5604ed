/-!
Stretches of a text, measured in bytes of its UTF-8 form.
-/

namespace ScriptTree

structure Span where
  start : Nat
  stop : Nat
  deriving DecidableEq, Repr, Inhabited

namespace Span

def sized (start size : Nat) : Span :=
  ⟨start, start + size⟩

def point (offset : Nat) : Span :=
  ⟨offset, offset⟩

def size (span : Span) : Nat :=
  span.stop - span.start

def covers (span inner : Span) : Bool :=
  span.start ≤ inner.start && inner.stop ≤ span.stop

def through (a b : Span) : Span :=
  ⟨a.start, b.stop⟩

def render (span : Span) : String :=
  s!"{span.start}..{span.stop}"

end Span

end ScriptTree

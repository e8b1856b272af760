namespace GzipStage.Log.Pattern

/-- A place: the number of characters before it, its line and its column, both from one. -/
structure Place where
  offset : Nat
  line : Nat
  column : Nat
  deriving DecidableEq

namespace Place

def start : Place := ⟨0, 1, 1⟩

def next (p : Place) (c : Char) : Place :=
  if c = '\n' then ⟨p.offset + 1, p.line + 1, 1⟩ else ⟨p.offset + 1, p.line, p.column + 1⟩

end Place

structure Span where
  start : Place
  stop : Place
  deriving DecidableEq

namespace Span

def empty (p : Place) : Span := ⟨p, p⟩

def onOneLine (s : Span) : Bool := s.start.line = s.stop.line

/-- Whether a stretch begins before another one, or with it and ends no later. -/
def before (s t : Span) : Bool :=
  s.start.offset < t.start.offset ||
    (s.start.offset = t.start.offset && s.stop.offset ≤ t.stop.offset)

end Span

end GzipStage.Log.Pattern

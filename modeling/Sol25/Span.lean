/-!
Spans of a source text, and the line and column in which an offset lies. Offsets count characters,
so neither an encoding nor a tab width has a say in them.
-/

set_option autoImplicit false
set_option relaxedAutoImplicit false

namespace Sol25

/-- The characters from offset `start` up to but not including offset `stop`. Tokens that no text
was read for may carry a span whose `start` lies behind its `stop`. -/
structure Span where
  start : Nat
  stop : Nat
deriving DecidableEq

namespace Span

/-- The span of what was made up and stands nowhere. -/
def nowhere : Span := ⟨0, 0⟩

/-- The least span that reaches over both. -/
def merge (a b : Span) : Span := ⟨min a.start b.start, max a.stop b.stop⟩

end Span

/-- A line and a column, both counted from one. -/
structure Location where
  line : Nat
  column : Nat
deriving DecidableEq

namespace Location

/-- Where a text begins. -/
def first : Location := ⟨1, 1⟩

/-- A line feed begins a line; any other character, a tab or a carriage return too, is one column
wide. -/
def advance (place : Location) (c : Char) : Location :=
  if c = '\n' then ⟨place.line + 1, 1⟩ else ⟨place.line, place.column + 1⟩

/-- The location right behind the characters of `text`. -/
def after (text : List Char) : Location := text.foldl advance first

end Location

/-- The location in `text` at which a span starts. A start beyond the end counts as the end. -/
def Span.location (span : Span) (text : List Char) : Location :=
  Location.after (text.take span.start)

end Sol25

/-!
# Positions, spans and fragments

A place in a template is known first as a byte offset and later as a resolved `Position` with a
line and a column.  `Span` and `Fragment` are therefore written over the type `π` of places: the
same tree carries offsets while it is read, positions once it is resolved, and nothing at all
(`π = Unit`) where only its contents matter.
-/

namespace SwitchMarkup

/-- A resolved place in a source. -/
structure Position where
  /-- The offset from the start of the source, in bytes. -/
  index : Nat
  /-- The line, counted from one. -/
  line : Nat
  /-- The column, counted from one in characters. -/
  column : Nat
deriving DecidableEq, Repr

namespace Position

/-- The wording of a position in messages. -/
def display (p : Position) : String :=
  "line " ++ toString p.line ++ ", col " ++ toString p.column

end Position

/-- A half-open stretch of source between two places. -/
structure Span (π : Type) where
  /-- The place of the first character. -/
  start : π
  /-- The place just after the last character. -/
  stop : π
deriving DecidableEq, Repr

namespace Span

/-- The same stretch with each end replaced by its image. -/
def map {π ρ : Type} (f : π → ρ) (s : Span π) : Span ρ := ⟨f s.start, f s.stop⟩

/-- The number of bytes between the two ends. -/
def byteLength (s : Span Position) : Nat := s.stop.index - s.start.index

/-- Whether the two ends coincide. -/
def isEmpty (s : Span Position) : Bool := s.byteLength == 0

end Span

/-- A piece of source, word for word, and the stretch it was read from. -/
structure Fragment (π : Type) where
  /-- The text of the piece. -/
  value : String
  /-- The stretch that the text fills. -/
  span : Span π
deriving DecidableEq, Repr

namespace Fragment

/-- The same text at the image of its stretch. -/
def map {π ρ : Type} (f : π → ρ) (x : Fragment π) : Fragment ρ := ⟨x.value, x.span.map f⟩

end Fragment

end SwitchMarkup

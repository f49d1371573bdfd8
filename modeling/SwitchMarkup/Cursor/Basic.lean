import SwitchMarkup.Expression.Extract
import SwitchMarkup.Source.Basic

/-!
# Cursors

A `Cursor` walks over a source by hand.  It may be sent to any byte offset, even one inside a
character; whatever has to read the text from there answers only when the offset is a boundary,
and gives `none` otherwise.
-/

namespace SwitchMarkup

/-- A source and a byte offset into it. -/
structure Cursor where
  /-- The source. -/
  source : Source
  /-- The offset, never past the end for a cursor that began at the start. -/
  index : Nat

namespace Cursor

/-- The cursor at the start of a source. -/
def start (source : Source) : Cursor := ⟨source, 0⟩

/-- The cursor at an offset, or at the end if that comes first. -/
def seek (c : Cursor) (offset : Nat) : Cursor := ⟨c.source, min offset c.source.length⟩

/-- The number of values of a machine word. Words have 64 bits; the other bound is for texts that
no such machine holds, and makes room for all their offsets. -/
def wordSize (c : Cursor) : Nat := max UInt64.size (c.source.length + 1)

/-- The cursor some bytes further on. The sum is one of machine words that nobody checks, so it
wraps around where it is too large. -/
def advance (c : Cursor) (count : Nat) : Cursor := c.seek ((c.index + count) % c.wordSize)

/-- Whether the cursor stands at the end. -/
def isAtEnd (c : Cursor) : Bool := c.source.length ≤ c.index

/-- What is left to read, unless the cursor stands inside a character. -/
def tail? (c : Cursor) : Option Tail :=
  if isBoundary c.index c.source.chars then some ⟨c.index, dropBytes c.index c.source.chars⟩
  else none

/-- The text that is left. -/
def remaining? (c : Cursor) : Option String := c.tail?.map fun t => String.ofList t.chars

/-- Whether the text that is left begins with a word. -/
def startsWith? (c : Cursor) (word : String) : Option Bool :=
  c.tail?.map fun t => t.startsWith word.toList

/-- Takes what `read` takes, and tells whether that is anything. -/
def consumeWith? (c : Cursor) (read : Tail → Option Tail) : Option (Bool × Cursor) :=
  c.tail?.map fun t =>
    match read t with
    | some u => (true, ⟨c.source, u.offset⟩)
    | none => (false, c)

/-- Takes a word, if the text that is left begins with it. -/
def consume? (c : Cursor) (word : String) : Option (Bool × Cursor) :=
  c.consumeWith? (Tail.drop? word.toList)

/-- Takes a line end, if the text that is left begins with one. -/
def consumeLineEnd? (c : Cursor) : Option (Bool × Cursor) := c.consumeWith? Tail.dropLineEnd?

/-- Passes over the leading characters of a class, and gives their number of bytes. -/
def skipWhile? (c : Cursor) (p : Char → Bool) : Option (Nat × Cursor) :=
  c.tail?.map fun t =>
    let u := t.skipWhile p
    (u.offset - t.offset, ⟨c.source, u.offset⟩)

/-- The position of the cursor. -/
def position? (c : Cursor) : Option Position := c.source.positionAt? c.index

/-- Reads an expression with its header and moves after it; the cursor stays where the header is
not well formed. -/
def extract? (c : Cursor) (context : Context) :
    Option (Except (Failure Position) (Fragment Position) × Cursor) :=
  c.tail?.map fun t =>
    match extract context t with
    | .ok x => (.ok (x.expression.map c.source.positionAt), ⟨c.source, x.rest.offset⟩)
    | .error failure => (.error (failure.map c.source.positionAt), c)

end Cursor

end SwitchMarkup

import SwitchMarkup.Source.LineTable
import SwitchMarkup.Source.Position

/-!
# Sources

A `Source` is the text of a template together with its length and its line table.  Its one
question is where a byte offset stands: `Source.positionAt` answers for every offset, and
`Source.positionAt?` only for those that do not split a character.
-/

namespace SwitchMarkup

/-- The text of a template, how long it is, and where its lines begin. -/
structure Source where
  /-- The characters of the text. -/
  chars : List Char
  /-- The length of the text in bytes. -/
  length : Nat := byteLength chars
  /-- Where the lines of the text begin. -/
  lines : LineTable := .ofChars chars
  /-- The length is the one of the text. -/
  length_eq : length = byteLength chars := by rfl
  /-- The table is the one of the text. -/
  lines_eq : lines = .ofChars chars := by rfl

namespace Source

/-- The source with a given text. -/
def ofString (text : String) : Source := { chars := text.toList }

/-- The position of a byte offset; an offset past the end counts as the end.  The column counts
the characters that begin between the start of the line and the offset. -/
def positionAt (source : Source) (offset : Nat) : Position :=
  let index := min offset source.length
  let line := source.lines.lineOf index
  let start := source.lines.startOf line
  ⟨index, line, (takeBytes (index - start.offset) start.chars).length + 1⟩

/-- Whether an offset, clamped to the end, falls between two characters. -/
def isBoundary (source : Source) (offset : Nat) : Bool :=
  SwitchMarkup.isBoundary (min offset source.length) source.chars

/-- The position of an offset that does not split a character. -/
def positionAt? (source : Source) (offset : Nat) : Option Position :=
  if source.isBoundary offset then some (source.positionAt offset) else none

/-- The stretch between two offsets, if neither splits a character. -/
def span? (source : Source) (start stop : Nat) : Option (Span Position) :=
  match source.positionAt? start, source.positionAt? stop with
  | some start, some stop => some ⟨start, stop⟩
  | _, _ => none

end Source

end SwitchMarkup

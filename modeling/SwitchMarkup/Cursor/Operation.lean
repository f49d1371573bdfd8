import SwitchMarkup.Cursor.Basic

/-!
# Sequences of cursor operations

The operations of a cursor as data, so that a whole sequence of them is a value.  `Cursor.apply`
carries out one operation; one that cannot read from inside a character is answered by
`Reply.insideCharacter` and leaves the cursor alone.
-/

namespace SwitchMarkup

/-- What can be asked of a cursor. -/
inductive Operation where
  /-- The text of the source. -/
  | source
  /-- The offset. -/
  | index
  /-- To go to an offset. -/
  | seek (offset : Nat)
  /-- To go on by some bytes. -/
  | advance (count : Nat)
  /-- The text that is left. -/
  | remaining
  /-- Whether the end has been reached. -/
  | isAtEnd
  /-- Whether a word comes next. -/
  | startsWith (word : String)
  /-- To take a word that comes next. -/
  | consume (word : String)
  /-- To pass over white space. -/
  | skipWhiteSpace
  /-- To pass over spaces and tabs. -/
  | skipBlanks
  /-- To take a line end that comes next. -/
  | consumeLineEnd
  /-- The position of the cursor. -/
  | position
  /-- The position of an offset. -/
  | positionAt (offset : Nat)
  /-- The stretch between two offsets. -/
  | span (start stop : Nat)
  /-- To read an expression with its header. -/
  | extract (context : Context)
deriving DecidableEq, Repr

/-- What a cursor answers. -/
inductive Reply where
  /-- The cursor has moved. -/
  | done
  /-- A yes or a no. -/
  | flag (value : Bool)
  /-- A number of bytes. -/
  | count (value : Nat)
  /-- A text. -/
  | text (value : String)
  /-- A position. -/
  | position (value : Position)
  /-- A stretch. -/
  | span (value : Span Position)
  /-- An expression. -/
  | expression (value : Fragment Position)
  /-- Why there is no expression. -/
  | failure (value : Failure Position)
  /-- The operation would have had to read from inside a character. -/
  | insideCharacter
deriving DecidableEq, Repr

namespace Cursor

/-- The reply to a question about the text, which leaves the cursor where it is. -/
def ask {α : Type} (c : Cursor) (reply : α → Reply) (answer : Option α) : Reply × Cursor :=
  (answer.elim .insideCharacter reply, c)

/-- The reply to an operation that reads the text and may move the cursor. -/
def take {α : Type} (c : Cursor) (reply : α → Reply) (answer : Option (α × Cursor)) :
    Reply × Cursor :=
  match answer with
  | some (value, moved) => (reply value, moved)
  | none => (.insideCharacter, c)

/-- Carries out one operation. -/
def apply (c : Cursor) : Operation → Reply × Cursor
  | .source => (.text (String.ofList c.source.chars), c)
  | .index => (.count c.index, c)
  | .seek offset => (.done, c.seek offset)
  | .advance count => (.done, c.advance count)
  | .remaining => c.ask .text c.remaining?
  | .isAtEnd => (.flag c.isAtEnd, c)
  | .startsWith word => c.ask .flag (c.startsWith? word)
  | .consume word => c.take .flag (c.consume? word)
  | .skipWhiteSpace => c.take .count (c.skipWhile? isWhiteSpace)
  | .skipBlanks => c.take .count (c.skipWhile? isBlank)
  | .consumeLineEnd => c.take .flag c.consumeLineEnd?
  | .position => c.ask .position c.position?
  | .positionAt offset => c.ask .position (c.source.positionAt? offset)
  | .span start stop => c.ask .span (c.source.span? start stop)
  | .extract context =>
    let reply : Except (Failure Position) (Fragment Position) → Reply
      | .ok expression => .expression expression
      | .error failure => .failure failure
    c.take reply (c.extract? context)

/-- Carries out operations in order: the replies, each with the cursor after its operation. -/
def applyAll (c : Cursor) : List Operation → List (Reply × Cursor)
  | [] => []
  | operation :: operations =>
    let result := c.apply operation
    result :: result.2.applyAll operations

end Cursor

end SwitchMarkup

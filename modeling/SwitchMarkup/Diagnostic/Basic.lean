import SwitchMarkup.Diagnostic.Excerpt
import SwitchMarkup.Failure

/-!
# Diagnostics

A `Diagnostic` is what the reader of a message sees: a position, a message, and perhaps a hint.
It is shown on one line by `Diagnostic.display`, and with an excerpt of the source by
`Diagnostic.format`.
-/

namespace SwitchMarkup

/-- A message about one position of a source. -/
structure Diagnostic where
  /-- What the message is about. -/
  position : Position
  /-- The message. -/
  message : String
  /-- A suggestion how to go on. -/
  hint : Option String := none
deriving DecidableEq, Repr

/-- The diagnostic of a failure: the wording of its cause at its place. -/
def Failure.diagnostic (x : Failure Position) : Diagnostic :=
  ⟨x.place, x.cause.message, x.cause.hint⟩

namespace Diagnostic

/-- The same diagnostic with a hint, in place of any that it had. -/
def withHint (d : Diagnostic) (hint : String) : Diagnostic := ⟨d.position, d.message, some hint⟩

/-- The message and its position on one line. -/
def display (d : Diagnostic) : String := d.message ++ ": " ++ d.position.display

/-- The place of a diagnostic, after the name of the template if it has one. -/
def location (d : Diagnostic) (name : Option String) : List Char :=
  (match name with
    | some name => name.toList ++ [':']
    | none => []) ++
  (toString d.position.line).toList ++ [':'] ++ (toString d.position.column).toList

/-- The line of the excerpt: the number of the line, in at least three columns, and its text. -/
def excerptLine (d : Diagnostic) (source : List Char) : List Char :=
  padLeft 3 (toString d.position.line).toList ++ " | ".toList ++ lineAt d.position.line source

/-- The line under the excerpt, with a caret under the column of the diagnostic. -/
def caretLine (d : Diagnostic) (source : List Char) : List Char :=
  "    | ".toList ++ indentTo d.position.column (lineAt d.position.line source) ++ ['^']

/-- The line of the hint, if there is one. -/
def hintLine (d : Diagnostic) : List Char :=
  match d.hint with
  | some hint => "\n  = hint: ".toList ++ hint.toList
  | none => []

/-- The diagnostic with an excerpt of its source. -/
def format (d : Diagnostic) (source : String) (name : Option String) : String :=
  String.ofList
    ("Error: ".toList ++ d.message.toList ++ "\n --> ".toList ++ d.location name ++
      "\n  |\n".toList ++ d.excerptLine source.toList ++ ['\n'] ++ d.caretLine source.toList ++
      d.hintLine)

end Diagnostic

end SwitchMarkup

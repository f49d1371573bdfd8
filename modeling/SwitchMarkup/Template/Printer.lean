import SwitchMarkup.Keyword
import SwitchMarkup.Template.Basic

/-!
# Printing templates

A template is printed with one statement on a line, indented by tabs, and with text and output
expressions kept on one line wherever a line break between them could make something else of the
text: text after an output expression is never moved to the start of a line, where it might be
read as a keyword.

Printing puts each part in front of the text `rest` that follows it, so that the text of a deep
template is built once; `Template.print` and `Node.print` give strings.
-/

namespace SwitchMarkup

/-- What the line that is being printed ends with. -/
inductive LineState where
  /-- Nothing: the line has not been begun. -/
  | fresh
  /-- Text. -/
  | text
  /-- An output expression. -/
  | output
deriving DecidableEq, Repr

namespace LineState

/-- What ends a line that has been begun. -/
def finish : LineState → List Char
  | fresh => []
  | text => ['\n']
  | output => ['\n']

/-- What the line ends with after a node. -/
def after {π : Type} : Node π → LineState
  | .text _ => text
  | .output _ => output
  | .fallthrough _ => fresh
  | .switch .. => fresh

/-- Whether a node goes on the line that has been begun: an output expression joins any line, text
only one that ends with an output expression. -/
def admits {π : Type} : LineState → Node π → Bool
  | text, .output _ => true
  | output, .text _ => true
  | output, .output _ => true
  | _, _ => false

/-- What comes between the line so far and a node printed at a depth. -/
def lead {π : Type} (line : LineState) (depth : Nat) (node : Node π) : List Char :=
  if line.admits node then [] else line.finish ++ List.replicate depth '\t'

end LineState

/-- The line that opens the block of a switch; an empty tag leaves no gap. -/
def openingLine (tag : String) : List Char :=
  Keyword.spaced Keyword.switch ++
    ((if tag.isEmpty then [] else tag.toList ++ [' ']) ++ ['\x7b', '\n'])

/-- The line of a clause header. -/
def Header.line {π : Type} : Header π → List Char
  | .case list => Keyword.spaced Keyword.case ++ (list.value.toList ++ [':', '\n'])
  | .default _ => Keyword.default ++ [':', '\n']

mutual

/-- A node at a depth, from its first character on and in front of `rest`; a statement ends its
line. -/
def Node.write {π : Type} (depth : Nat) : Node π → List Char → List Char
  | .text content, rest => content.value.toList ++ rest
  | .output expression, rest =>
    ['\x7b', ' '] ++ (expression.value.toList ++ ([' ', '\x7d'] ++ rest))
  | .fallthrough _, rest => Keyword.fallthrough ++ ('\n' :: rest)
  | .switch tag clauses _, rest =>
    openingLine tag.value ++
      Clause.writeAll depth clauses (List.replicate depth '\t' ++ (['\x7d', '\n'] ++ rest))

/-- A clause of a switch at a depth, in front of `rest`: its header one step deeper than the
switch, its children two. -/
def Clause.write {π : Type} (depth : Nat) : Clause π → List Char → List Char
  | ⟨header, children⟩, rest =>
    List.replicate (depth + 1) '\t' ++
      (header.line ++ Template.write (depth + 2) .fresh children rest)

/-- Nodes at a depth, after what the current line ends with and in front of `rest`. -/
def Template.write {π : Type} (depth : Nat) (line : LineState) :
    Template π → List Char → List Char
  | [], rest => line.finish ++ rest
  | node :: nodes, rest =>
    line.lead depth node ++
      Node.write depth node (Template.write depth (.after node) nodes rest)

/-- The clauses of a switch at a depth, in front of `rest`. -/
def Clause.writeAll {π : Type} (depth : Nat) : List (Clause π) → List Char → List Char
  | [], rest => rest
  | clause :: clauses, rest => Clause.write depth clause (Clause.writeAll depth clauses rest)

end

/-- The canonical source of a template. -/
def Template.print {π : Type} (t : Template π) : String :=
  String.ofList (Template.write 0 .fresh t [])

/-- The canonical source of a node that stands alone. -/
def Node.print {π : Type} (node : Node π) : String := Template.print [node]

end SwitchMarkup

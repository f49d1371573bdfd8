/-!
# Excerpts of a source

A diagnostic shows one line of the source and points at one of its columns.  Lines end at line
feeds; a carriage return just before the line feed belongs to the line end, and a line feed at the
very end of the source begins no further line.
-/

namespace SwitchMarkup

/-- The lines of a text, without their line ends. -/
def lines : List Char → List (List Char)
  | [] => []
  | '\n' :: cs => [] :: lines cs
  | '\r' :: '\n' :: cs => [] :: lines cs
  | c :: cs =>
    match lines cs with
    | [] => [[c]]
    | line :: rest => (c :: line) :: rest

/-- The line with a number, counted from one; zero stands for one, and a number past the last line
for an empty line. -/
def lineAt (number : Nat) (cs : List Char) : List Char := (lines cs).getD (number - 1) []

/-- What puts a mark under a column, counted from one: a tab under each tab of the line and a space
under any other character. -/
def indentTo (column : Nat) (line : List Char) : List Char :=
  (line.take (column - 1)).map fun c => if c = '\t' then '\t' else ' '

/-- A text with spaces in front of it, to a width. -/
def padLeft (width : Nat) (cs : List Char) : List Char :=
  List.replicate (width - cs.length) ' ' ++ cs

end SwitchMarkup

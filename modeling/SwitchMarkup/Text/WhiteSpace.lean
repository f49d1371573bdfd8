/-!
# White space

Three classes of characters separate the parts of a template: Unicode white space surrounds text
and expressions, blanks separate a keyword from what follows on its line, and line breaks end a
line.

Main definitions: `isWhiteSpace`, `isBlank`, `isLineBreak`, and `trim`, which removes the white
space around a text.
-/

namespace SwitchMarkup

/-- The code points with the Unicode property `White_Space`, as closed intervals. -/
def whiteSpaceIntervals : List (Nat × Nat) :=
  [(0x0009, 0x000D), (0x0020, 0x0020), (0x0085, 0x0085), (0x00A0, 0x00A0), (0x1680, 0x1680),
   (0x2000, 0x200A), (0x2028, 0x2029), (0x202F, 0x202F), (0x205F, 0x205F), (0x3000, 0x3000)]

/-- Whether a character has the Unicode property `White_Space`. -/
def isWhiteSpace (c : Char) : Bool :=
  whiteSpaceIntervals.any fun interval => interval.1 ≤ c.toNat && c.toNat ≤ interval.2

/-- Blanks are the space and the tab: white space that keeps to its line. -/
def isBlank (c : Char) : Bool := c == ' ' || c == '\t'

/-- A line feed or a carriage return ends a line of a header. -/
def isLineBreak (c : Char) : Bool := c == '\n' || c == '\r'

/-- The text without its leading white space. -/
def trimStart (cs : List Char) : List Char := cs.dropWhile isWhiteSpace

/-- The text without its trailing white space. -/
def trimEnd (cs : List Char) : List Char := (cs.reverse.dropWhile isWhiteSpace).reverse

/-- The text without the white space around it. -/
def trim (cs : List Char) : List Char := trimEnd (trimStart cs)

/-! ## How the classes relate -/

/-- Blanks are white space. -/
theorem isWhiteSpace_of_isBlank {c : Char} (h : isBlank c) : isWhiteSpace c := by
  rcases (by simpa [isBlank] using h : c = ' ' ∨ c = '\t') with rfl | rfl <;> decide

/-- Trimming the end of a text that starts with a visible character leaves that character. -/
theorem trimEnd_ne_nil {c : Char} {cs : List Char} (h : isWhiteSpace c = false) :
    trimEnd (c :: cs) ≠ [] := by
  simp [trimEnd, List.dropWhile_append, h]
  split <;> simp

end SwitchMarkup

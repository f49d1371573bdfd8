/-!
# Keywords

The four words that have a meaning at the start of a line.  A `switch` and a `case` count as
keywords only with a space behind them.
-/

namespace SwitchMarkup.Keyword

/-- The word that begins a switch. -/
def switch : List Char := "switch".toList

/-- The word that begins a clause with a list. -/
def case : List Char := "case".toList

/-- The word that begins a clause without a list. -/
def default : List Char := "default".toList

/-- The word that continues with the next clause. -/
def fallthrough : List Char := "fallthrough".toList

/-- A word with the space that sets it off. -/
def spaced (word : List Char) : List Char := word ++ [' ']

end SwitchMarkup.Keyword

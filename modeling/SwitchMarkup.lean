import SwitchMarkup.Cursor.Operation
import SwitchMarkup.Diagnostic.Basic
import SwitchMarkup.Proofs.Descent.Progress
import SwitchMarkup.Proofs.Descent.Safety
import SwitchMarkup.Proofs.Diagnostic.Caret
import SwitchMarkup.Proofs.Parser.Blocks
import SwitchMarkup.Proofs.Parser.Concatenation
import SwitchMarkup.Proofs.Parser.FallthroughLines
import SwitchMarkup.Proofs.Parser.Fallthroughs
import SwitchMarkup.Proofs.Parser.LineEnds
import SwitchMarkup.Proofs.Parser.LineStarts
import SwitchMarkup.Proofs.Parser.Lists
import SwitchMarkup.Proofs.Parser.Log
import SwitchMarkup.Proofs.Parser.Nesting
import SwitchMarkup.Proofs.Parser.Refusals
import SwitchMarkup.Proofs.Parser.Replacement
import SwitchMarkup.Proofs.Parser.Spacing
import SwitchMarkup.Proofs.Parser.Spans
import SwitchMarkup.Proofs.Parser.Validation
import SwitchMarkup.Proofs.Printer.Content
import SwitchMarkup.Proofs.Printer.Reprint

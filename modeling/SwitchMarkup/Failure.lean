import SwitchMarkup.Source.Position

/-!
# Failures

A template that cannot be read fails at one place for one `Cause`.  Causes are values, and what a
reader of the message sees is decided in two functions: `Cause.message` and `Cause.hint`.
-/

namespace SwitchMarkup

/-- The four constructs that carry a Go expression. -/
inductive Context where
  /-- The header of a switch, whose tag ends before the opening brace of the block. -/
  | switch
  /-- The header of a clause, `case` with a list or `default`, up to and including the colon. -/
  | case
  /-- The statement `fallthrough`, which ends its line. -/
  | fallthrough
  /-- An expression in braces, whose value the template prints. -/
  | output
deriving DecidableEq, Repr

/-- The name of a construct in messages. -/
def Context.name : Context → String
  | .switch => "switch"
  | .case => "case"
  | .fallthrough => "fallthrough"
  | .output => "string expression"

/-- What would have had to stand where an expression went wrong. -/
inductive Expected where
  /-- The keyword `switch` and a blank. -/
  | switchHeader
  /-- A whole clause header. -/
  | clauseHeader
  /-- At least one item of a case list. -/
  | caseList
  /-- The keyword `fallthrough`. -/
  | fallthroughLine
  /-- The end of the line, or the brace that opens a block. -/
  | endOfLine
  /-- A pair of braces around an expression. -/
  | bracedExpression
deriving DecidableEq, Repr

/-- The wording of what was expected. -/
def Expected.describe : Expected → String
  | .switchHeader => "`switch <tag> \x7b`"
  | .clauseHeader => "`case <expression>:` or `default:`"
  | .caseList => "case expression list"
  | .fallthroughLine => "`fallthrough` on its own line"
  | .endOfLine => "end of line"
  | .bracedExpression => "`\x7b <expression> \x7d`"

/-- The reasons for which a template is refused. -/
inductive Cause where
  /-- The header or expression of a construct is not well formed. -/
  | invalidExpression (context : Context) (expected : Expected)
  /-- There is only white space between the braces of an expression. -/
  | missingExpression
  /-- A character that can begin no node. -/
  | unexpected (c : Char)
  /-- A switch header that does not end in an opening brace and a line end. -/
  | unterminatedHeader
  /-- The clauses of a switch end without a closing brace. -/
  | missingClosingBrace
  /-- The source ends before the first node of a clause. -/
  | missingNodes
  /-- A switch stands inside as many others as the limit allows. -/
  | nestingTooDeep (limit : Nat)
  /-- A `fallthrough` at the top level of the template. -/
  | fallthroughOutsideCase
  /-- A `fallthrough` with a node after it in its clause. -/
  | fallthroughNotLast
  /-- A `fallthrough` that ends the last clause of its switch. -/
  | fallthroughInFinalCase
deriving DecidableEq, Repr

namespace Cause

/-- The message of a cause. -/
def message : Cause → String
  | invalidExpression context _ => context.name ++ ": invalid Go expression"
  | missingExpression => Context.output.name ++ ": expected Go expression"
  | unexpected c => "unexpected '" ++ String.singleton c ++ "'"
  | unterminatedHeader => "switch: unterminated (missing '\x7b' at end of line)"
  | missingClosingBrace => "switch: missing end (expected '\x7d')"
  | missingNodes => "case: expected nodes, but none were found"
  | nestingTooDeep limit => "switch: maximum nesting depth of " ++ toString limit ++ " exceeded"
  | fallthroughOutsideCase => "fallthrough: only permitted as the last statement of a case"
  | fallthroughNotLast => "case: fallthrough must be the last statement in a case"
  | fallthroughInFinalCase => "switch: cannot fallthrough final case in switch"

/-- The hint of a cause: only an expression that is not well formed comes with one. -/
def hint : Cause → Option String
  | invalidExpression _ expected => some ("expected " ++ expected.describe)
  | _ => none

end Cause

/-- A cause and the place where it was found. -/
structure Failure (π : Type) where
  /-- Where the template goes wrong. -/
  place : π
  /-- Why it is refused. -/
  cause : Cause
deriving DecidableEq, Repr

namespace Failure

/-- The same failure at the image of its place. -/
def map {π ρ : Type} (f : π → ρ) (x : Failure π) : Failure ρ := ⟨f x.place, x.cause⟩

end Failure

end SwitchMarkup

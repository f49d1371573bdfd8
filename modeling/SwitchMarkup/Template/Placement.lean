import SwitchMarkup.Template.Basic

/-!
# Where a fallthrough may stand

A `fallthrough` continues with the next clause, so it must be the last statement of its clause and
its clause must not be the last of its switch.  Each of the two rules is checked by looking for
the place that breaks it.
-/

namespace SwitchMarkup

/-- The start of the first `fallthrough` that has a node after it. -/
def earlyFallthrough? {π : Type} : List (Node π) → Option π
  | .fallthrough keyword :: _ :: _ => some keyword.span.start
  | _ :: nodes => earlyFallthrough? nodes
  | [] => none

/-- The start of a `fallthrough` that is the last of its nodes. -/
def closingFallthrough? {π : Type} (nodes : List (Node π)) : Option π :=
  match nodes.getLast? with
  | some (.fallthrough keyword) => some keyword.span.start
  | _ => none

/-- The start of a `fallthrough` that is the last node of the last clause. -/
def finalFallthrough? {π : Type} (clauses : List (Clause π)) : Option π :=
  clauses.getLast?.bind fun clause => closingFallthrough? clause.children

end SwitchMarkup

import SwitchMarkup.Source.Position

/-!
# Templates

A template is a list of nodes: text, output expressions, and switches whose clauses hold nodes
again.  The tree is written over the type `π` of places, and `Template.map` changes the places
without touching anything else; two templates are equal up to their places exactly when their
images in `Template Unit` are equal.
-/

namespace SwitchMarkup

/-- What stands in front of the nodes of a clause. -/
inductive Header (π : Type) where
  /-- `case`, a list and a colon; the fragment is the list. -/
  | case (list : Fragment π)
  /-- `default` and a colon; the span is that of the keyword. -/
  | default (keyword : Span π)
deriving DecidableEq, Repr

namespace Header

/-- Whether the header is that of a clause without a list. -/
def isDefault {π : Type} : Header π → Bool
  | case _ => false
  | default _ => true

/-- The text of the list, if there is one. -/
def list? {π : Type} : Header π → Option String
  | case list => some list.value
  | default _ => none

/-- The stretch of the list or of the keyword. -/
def span {π : Type} : Header π → Span π
  | case list => list.span
  | default keyword => keyword

/-- The same header at the image of its stretch. -/
def map {π ρ : Type} (f : π → ρ) : Header π → Header ρ
  | case list => .case (list.map f)
  | default keyword => .default (keyword.map f)

end Header

mutual

/-- One piece of content. -/
inductive Node (π : Type) where
  /-- Markup, up to the end of its line or the next brace. -/
  | text (content : Fragment π)
  /-- An expression in braces, whose value the template prints. -/
  | output (expression : Fragment π)
  /-- The statement that continues with the next clause. -/
  | fallthrough (keyword : Fragment π)
  /-- A switch with its tag, which may be empty, its clauses in order, and the stretch from the
  keyword to the closing brace. -/
  | switch (tag : Fragment π) (clauses : List (Clause π)) (block : Span π)

/-- One alternative of a switch. -/
structure Clause (π : Type) where
  /-- What selects the clause. -/
  header : Header π
  /-- The content of the clause. -/
  children : List (Node π)

end

/-- A template: the nodes of its top level. -/
abbrev Template (π : Type) := List (Node π)

/-! ## Changing places -/

mutual

/-- The same node at the image of its places. -/
def Node.map {π ρ : Type} (f : π → ρ) : Node π → Node ρ
  | .text content => .text (content.map f)
  | .output expression => .output (expression.map f)
  | .fallthrough keyword => .fallthrough (keyword.map f)
  | .switch tag clauses block => .switch (tag.map f) (Clause.mapAll f clauses) (block.map f)

/-- The same clause at the image of its places. -/
def Clause.map {π ρ : Type} (f : π → ρ) : Clause π → Clause ρ
  | ⟨header, children⟩ => ⟨header.map f, Template.map f children⟩

/-- The same nodes at the image of their places. -/
def Template.map {π ρ : Type} (f : π → ρ) : Template π → Template ρ
  | [] => []
  | node :: nodes => node.map f :: Template.map f nodes

/-- The same clauses at the image of their places. -/
def Clause.mapAll {π ρ : Type} (f : π → ρ) : List (Clause π) → List (Clause ρ)
  | [] => []
  | clause :: clauses => clause.map f :: Clause.mapAll f clauses

end

/-- A template without its places: what two templates share when they are equal up to ranges. -/
def Template.shape {π : Type} (t : Template π) : Template Unit := Template.map (fun _ => ()) t

/-- The places of a template change node by node. -/
theorem Template.map_eq_map {π ρ : Type} (f : π → ρ) (nodes : List (Node π)) :
    Template.map f nodes = nodes.map (Node.map f) := by
  induction nodes with
  | nil => simp [Template.map]
  | cons node nodes ih => simp [Template.map, ih]

theorem Clause.mapAll_eq_map {π ρ : Type} (f : π → ρ) (clauses : List (Clause π)) :
    Clause.mapAll f clauses = clauses.map (Clause.map f) := by
  induction clauses with
  | nil => simp [Clause.mapAll]
  | cons clause clauses ih => simp [Clause.mapAll, ih]

end SwitchMarkup

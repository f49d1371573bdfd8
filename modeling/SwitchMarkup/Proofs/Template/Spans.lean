import SwitchMarkup.Proofs.Template.Map

/-!
# The stretches of a template

A template keeps a stretch of its source for every text, expression, keyword, tag and header, and
for the block of every switch. Here they are listed, in two ways: all of them in the order in which
they are read, and level by level, where a switch counts as the one stretch of its block. What is
claimed of every node, however deep, is claimed of the list of nodes that `Template.subnodes`
gathers.
-/

namespace SwitchMarkup

variable {π ρ : Type}

/-! ## One level -/

/-- The stretch of a node; for a switch it is that of its block. -/
def Node.span : Node π → Span π
  | .text content => content.span
  | .output expression => expression.span
  | .fallthrough keyword => keyword.span
  | .switch _ _ block => block

/-- The stretches of a clause, one level down: its header and its children. -/
def Clause.parts (clause : Clause π) : List (Span π) :=
  clause.header.span :: clause.children.map Node.span

/-- The stretches of a switch, one level down: its tag and the parts of its clauses. Other nodes
have no parts. -/
def Node.parts : Node π → List (Span π)
  | .switch tag clauses _ => tag.span :: clauses.flatMap Clause.parts
  | .text _ | .output _ | .fallthrough _ => []

/-! ## All levels -/

mutual

/-- The stretches of a node in the order in which they are read, without those of blocks. -/
def Node.leaves : Node π → List (Span π)
  | .text content => [content.span]
  | .output expression => [expression.span]
  | .fallthrough keyword => [keyword.span]
  | .switch tag clauses _ => tag.span :: Clause.leaves clauses

/-- The stretches of nodes in the order in which they are read, without those of blocks. -/
def Template.leaves : List (Node π) → List (Span π)
  | [] => []
  | node :: nodes => node.leaves ++ Template.leaves nodes

/-- The stretches of clauses in the order in which they are read, without those of blocks. -/
def Clause.leaves : List (Clause π) → List (Span π)
  | [] => []
  | ⟨header, children⟩ :: clauses =>
    header.span :: (Template.leaves children ++ Clause.leaves clauses)

end

mutual

/-- The node and all nodes inside of it. -/
def Node.subnodes : Node π → List (Node π)
  | .text content => [.text content]
  | .output expression => [.output expression]
  | .fallthrough keyword => [.fallthrough keyword]
  | .switch tag clauses block => .switch tag clauses block :: Clause.subnodes clauses

/-- The nodes of a template at any depth. -/
def Template.subnodes : List (Node π) → List (Node π)
  | [] => []
  | node :: nodes => node.subnodes ++ Template.subnodes nodes

/-- The nodes inside of clauses at any depth. -/
def Clause.subnodes : List (Clause π) → List (Node π)
  | [] => []
  | ⟨_, children⟩ :: clauses => Template.subnodes children ++ Clause.subnodes clauses

end

/-! ## Changes of places -/

theorem Header.span_map (f : π → ρ) (header : Header π) :
    (header.map f).span = header.span.map f := by
  cases header <;> rfl

theorem Node.span_map (f : π → ρ) (node : Node π) : (node.map f).span = node.span.map f := by
  cases node <;> rfl

theorem Node.map_span_map (f : π → ρ) (nodes : List (Node π)) :
    List.map Node.span (Template.map f nodes) = (nodes.map Node.span).map (Span.map f) := by
  rw [Template.map_eq_map, List.map_map, List.map_map]
  exact List.map_congr_left fun node _ => node.span_map f

theorem Clause.parts_map (f : π → ρ) (clause : Clause π) :
    (clause.map f).parts = clause.parts.map (Span.map f) := by
  rw [Clause.parts, Clause.parts, Clause.header_map, Clause.children_map, Header.span_map,
    Node.map_span_map, List.map_cons]

/-- The parts of a node are told in other places. -/
theorem Node.parts_map (f : π → ρ) (node : Node π) :
    (node.map f).parts = node.parts.map (Span.map f) := by
  cases node with
  | text | output | fallthrough => rfl
  | switch tag clauses block =>
    rw [Node.map, Node.parts, Node.parts, Clause.mapAll_eq_map, List.flatMap_map, List.map_cons,
      List.map_flatMap]
    simp only [Clause.parts_map]
    rfl

mutual

theorem Node.leaves_map (f : π → ρ) :
    ∀ node : Node π, (node.map f).leaves = node.leaves.map (Span.map f)
  | .text _ => rfl
  | .output _ => rfl
  | .fallthrough _ => rfl
  | .switch _ clauses _ => by
    rw [Node.map, Node.leaves, Node.leaves, Clause.leaves_mapAll f clauses, List.map_cons]
    rfl

/-- The leaves of nodes are told in other places. -/
theorem Template.leaves_map (f : π → ρ) :
    ∀ nodes : List (Node π),
      Template.leaves (Template.map f nodes) = (Template.leaves nodes).map (Span.map f)
  | [] => rfl
  | node :: nodes => by
    rw [Template.map, Template.leaves, Template.leaves, Node.leaves_map f node,
      Template.leaves_map f nodes, List.map_append]

theorem Clause.leaves_mapAll (f : π → ρ) :
    ∀ clauses : List (Clause π),
      Clause.leaves (Clause.mapAll f clauses) = (Clause.leaves clauses).map (Span.map f)
  | [] => rfl
  | ⟨header, children⟩ :: clauses => by
    rw [Clause.mapAll, Clause.map, Clause.leaves, Clause.leaves, Template.leaves_map f children,
      Clause.leaves_mapAll f clauses, Header.span_map, List.map_cons, List.map_append]

end

mutual

theorem Node.subnodes_map (f : π → ρ) :
    ∀ node : Node π, (node.map f).subnodes = node.subnodes.map (Node.map f)
  | .text _ => rfl
  | .output _ => rfl
  | .fallthrough _ => rfl
  | .switch _ clauses _ => by
    rw [Node.map, Node.subnodes, Node.subnodes, Clause.subnodes_mapAll f clauses, List.map_cons,
      Node.map]

/-- The nodes within nodes with other places are those nodes with other places. -/
theorem Template.subnodes_map (f : π → ρ) :
    ∀ nodes : List (Node π),
      Template.subnodes (Template.map f nodes) = (Template.subnodes nodes).map (Node.map f)
  | [] => rfl
  | node :: nodes => by
    rw [Template.map, Template.subnodes, Template.subnodes, Node.subnodes_map f node,
      Template.subnodes_map f nodes, List.map_append]

theorem Clause.subnodes_mapAll (f : π → ρ) :
    ∀ clauses : List (Clause π),
      Clause.subnodes (Clause.mapAll f clauses) = (Clause.subnodes clauses).map (Node.map f)
  | [] => rfl
  | ⟨_, children⟩ :: clauses => by
    rw [Clause.mapAll, Clause.map, Clause.subnodes, Clause.subnodes,
      Template.subnodes_map f children, Clause.subnodes_mapAll f clauses, List.map_append]

end

end SwitchMarkup

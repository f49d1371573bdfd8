import SwitchMarkup.Proofs.Template.Map

/-!
# The blocks of a template

What is claimed of every switch of a template, however deep, is claimed of the lists of clauses
that `Template.blocks` gathers.
-/

namespace SwitchMarkup

variable {π ρ : Type}

mutual

/-- The clauses of the switch, if the node is one, and of all switches inside of it. -/
def Node.blocks : Node π → List (List (Clause π))
  | .text _ => []
  | .output _ => []
  | .fallthrough _ => []
  | .switch _ clauses _ => clauses :: Clause.blocks clauses

/-- The clauses of every switch at any depth of a template, each list in front of those inside of
it. -/
def Template.blocks : List (Node π) → List (List (Clause π))
  | [] => []
  | node :: nodes => node.blocks ++ Template.blocks nodes

/-- The clauses of every switch inside of the bodies of clauses. -/
def Clause.blocks : List (Clause π) → List (List (Clause π))
  | [] => []
  | ⟨_, children⟩ :: clauses => Template.blocks children ++ Clause.blocks clauses

end

mutual

theorem Node.blocks_map (f : π → ρ) :
    ∀ node : Node π, (node.map f).blocks = node.blocks.map (Clause.mapAll f)
  | .text _ => rfl
  | .output _ => rfl
  | .fallthrough _ => rfl
  | .switch _ clauses _ => by
    rw [Node.map, Node.blocks, Node.blocks, Clause.blocks_mapAll f clauses, List.map_cons]

/-- The blocks of nodes with other places are the blocks with other places. -/
theorem Template.blocks_map (f : π → ρ) :
    ∀ nodes : List (Node π),
      Template.blocks (Template.map f nodes) = (Template.blocks nodes).map (Clause.mapAll f)
  | [] => rfl
  | node :: nodes => by
    rw [Template.map, Template.blocks, Template.blocks, Node.blocks_map f node,
      Template.blocks_map f nodes, List.map_append]

theorem Clause.blocks_mapAll (f : π → ρ) :
    ∀ clauses : List (Clause π),
      Clause.blocks (Clause.mapAll f clauses) = (Clause.blocks clauses).map (Clause.mapAll f)
  | [] => rfl
  | ⟨_, children⟩ :: clauses => by
    rw [Clause.mapAll, Clause.map, Clause.blocks, Clause.blocks, Template.blocks_map f children,
      Clause.blocks_mapAll f clauses, List.map_append]

end

end SwitchMarkup

import SwitchMarkup.Proofs.Template.Map

/-!
# How deep the switches of a template stand

Every switch of a template, at any depth, with the number of switches around it and the place where
it begins, in the order in which the switches begin in the source: a switch comes in front of those
inside of it.
-/

namespace SwitchMarkup

variable {π ρ : Type}

mutual

/-- The switches of a node that stands inside `depth` others. -/
def Node.switches (depth : Nat) : Node π → List (Nat × π)
  | .text _ => []
  | .output _ => []
  | .fallthrough _ => []
  | .switch _ clauses block => (depth, block.start) :: Clause.switches (depth + 1) clauses

/-- The switches of nodes that stand inside `depth` others. -/
def Template.switches (depth : Nat) : List (Node π) → List (Nat × π)
  | [] => []
  | node :: nodes => node.switches depth ++ Template.switches depth nodes

/-- The switches in the bodies of clauses whose switch is the last of `depth` around them. -/
def Clause.switches (depth : Nat) : List (Clause π) → List (Nat × π)
  | [] => []
  | ⟨_, children⟩ :: clauses => Template.switches depth children ++ Clause.switches depth clauses

end

/-! ## Lists of nodes and clauses -/

@[simp] theorem Template.switches_nil (depth : Nat) :
    Template.switches depth ([] : List (Node π)) = [] := rfl

@[simp] theorem Template.switches_cons (depth : Nat) (node : Node π) (nodes : List (Node π)) :
    Template.switches depth (node :: nodes) =
      node.switches depth ++ Template.switches depth nodes := rfl

@[simp] theorem Clause.switches_nil (depth : Nat) :
    Clause.switches depth ([] : List (Clause π)) = [] := rfl

@[simp] theorem Clause.switches_cons (depth : Nat) (clause : Clause π)
    (clauses : List (Clause π)) :
    Clause.switches depth (clause :: clauses) =
      Template.switches depth clause.children ++ Clause.switches depth clauses := by
  cases clause
  rfl

/-- Switches of nodes are listed one after the other. -/
@[simp] theorem Template.switches_append (depth : Nat) (nodes more : List (Node π)) :
    Template.switches depth (nodes ++ more) =
      Template.switches depth nodes ++ Template.switches depth more := by
  induction nodes with
  | nil => rfl
  | cons node nodes ih => simp [ih]

@[simp] theorem Clause.switches_append (depth : Nat) (clauses more : List (Clause π)) :
    Clause.switches depth (clauses ++ more) =
      Clause.switches depth clauses ++ Clause.switches depth more := by
  induction clauses with
  | nil => rfl
  | cons clause clauses ih => simp [ih]

/-! ## Changes of places -/

mutual

theorem Node.switches_map (f : π → ρ) :
    ∀ (depth : Nat) (node : Node π),
      (node.map f).switches depth = (node.switches depth).map (Prod.map id f)
  | _, .text _ => rfl
  | _, .output _ => rfl
  | _, .fallthrough _ => rfl
  | depth, .switch _ clauses _ => by
    rw [Node.map, Node.switches, Node.switches, Clause.switches_mapAll f (depth + 1) clauses,
      List.map_cons]
    rfl

/-- The depths of switches do not depend on places. -/
theorem Template.switches_map (f : π → ρ) :
    ∀ (depth : Nat) (nodes : List (Node π)),
      Template.switches depth (Template.map f nodes) =
        (Template.switches depth nodes).map (Prod.map id f)
  | _, [] => rfl
  | depth, node :: nodes => by
    rw [Template.map, Template.switches, Template.switches, Node.switches_map f depth node,
      Template.switches_map f depth nodes, List.map_append]

theorem Clause.switches_mapAll (f : π → ρ) :
    ∀ (depth : Nat) (clauses : List (Clause π)),
      Clause.switches depth (Clause.mapAll f clauses) =
        (Clause.switches depth clauses).map (Prod.map id f)
  | _, [] => rfl
  | depth, ⟨_, children⟩ :: clauses => by
    rw [Clause.mapAll, Clause.map, Clause.switches, Clause.switches,
      Template.switches_map f depth children, Clause.switches_mapAll f depth clauses,
      List.map_append]

end

end SwitchMarkup

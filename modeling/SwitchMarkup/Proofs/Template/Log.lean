import SwitchMarkup.Proofs.Template.Map

/-!
# What a parse has to report of a template

The reports that belong to a template are those of its switches, each behind those of the switches
inside of it. A switch without clauses may have one report more in front of its own one; what that
is depends on the source and is left to a parameter, `idle`.
-/

namespace SwitchMarkup

variable {π ρ : Type}

mutual

/-- The reports on a node that stands inside `depth` switches. -/
def Node.log (idle : Fragment π → Span π → List Event) (depth : Nat) : Node π → List Event
  | .text _ => []
  | .output _ => []
  | .fallthrough _ => []
  | .switch tag clauses block =>
    Clause.log idle (depth + 1) clauses ++ (if clauses.isEmpty then idle tag block else []) ++
      [.parsedSwitch tag.value clauses.length depth]

/-- The reports on nodes that stand inside `depth` switches. -/
def Template.log (idle : Fragment π → Span π → List Event) (depth : Nat) :
    List (Node π) → List Event
  | [] => []
  | node :: nodes => node.log idle depth ++ Template.log idle depth nodes

/-- The reports on the bodies of clauses whose switch is the last of `depth` around them. -/
def Clause.log (idle : Fragment π → Span π → List Event) (depth : Nat) :
    List (Clause π) → List Event
  | [] => []
  | ⟨_, children⟩ :: clauses => Template.log idle depth children ++ Clause.log idle depth clauses

end

variable {idle : Fragment π → Span π → List Event} {depth : Nat}

/-! ## Lists of nodes and clauses -/

@[simp] theorem Template.log_nil : Template.log idle depth ([] : List (Node π)) = [] := rfl

@[simp] theorem Template.log_cons (node : Node π) (nodes : List (Node π)) :
    Template.log idle depth (node :: nodes) =
      node.log idle depth ++ Template.log idle depth nodes := rfl

@[simp] theorem Clause.log_nil : Clause.log idle depth ([] : List (Clause π)) = [] := rfl

@[simp] theorem Clause.log_cons (clause : Clause π) (clauses : List (Clause π)) :
    Clause.log idle depth (clause :: clauses) =
      Template.log idle depth clause.children ++ Clause.log idle depth clauses := by
  cases clause
  rfl

/-- Nodes are logged one after the other. -/
@[simp] theorem Template.log_append (nodes more : List (Node π)) :
    Template.log idle depth (nodes ++ more) =
      Template.log idle depth nodes ++ Template.log idle depth more := by
  induction nodes with
  | nil => rfl
  | cons node nodes ih => simp [ih]

@[simp] theorem Clause.log_append (clauses more : List (Clause π)) :
    Clause.log idle depth (clauses ++ more) =
      Clause.log idle depth clauses ++ Clause.log idle depth more := by
  induction clauses with
  | nil => rfl
  | cons clause clauses ih => simp [ih]

/-! ## Changes of places -/

mutual

theorem Node.log_map (f : π → ρ) (idle : Fragment ρ → Span ρ → List Event) :
    ∀ (depth : Nat) (node : Node π), (node.map f).log idle depth =
      node.log (fun tag block => idle (tag.map f) (block.map f)) depth
  | _, .text _ => rfl
  | _, .output _ => rfl
  | _, .fallthrough _ => rfl
  | depth, .switch tag clauses block => by
    have hempty : List.isEmpty (Clause.mapAll f clauses) = clauses.isEmpty := by
      cases clauses <;> rfl
    rw [Node.map, Node.log, Node.log, Clause.log_mapAll f idle (depth + 1) clauses, hempty,
      Clause.length_mapAll]
    rfl

/-- The log of nodes with other places is the log of the nodes, with what is reported of idle
switches told in those places. -/
theorem Template.log_map (f : π → ρ) (idle : Fragment ρ → Span ρ → List Event) :
    ∀ (depth : Nat) (nodes : List (Node π)), Template.log idle depth (Template.map f nodes) =
      Template.log (fun tag block => idle (tag.map f) (block.map f)) depth nodes
  | _, [] => rfl
  | depth, node :: nodes => by
    rw [Template.map, Template.log, Template.log, Node.log_map f idle depth node,
      Template.log_map f idle depth nodes]

theorem Clause.log_mapAll (f : π → ρ) (idle : Fragment ρ → Span ρ → List Event) :
    ∀ (depth : Nat) (clauses : List (Clause π)), Clause.log idle depth (Clause.mapAll f clauses) =
      Clause.log (fun tag block => idle (tag.map f) (block.map f)) depth clauses
  | _, [] => rfl
  | depth, ⟨_, children⟩ :: clauses => by
    rw [Clause.mapAll, Clause.map, Clause.log, Clause.log, Template.log_map f idle depth children,
      Clause.log_mapAll f idle depth clauses]

end

end SwitchMarkup

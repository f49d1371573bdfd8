import SwitchMarkup.Proofs.Template.Map

/-!
# Other spellings of the expressions

`Template.respell` replaces the text of every expression of a template, whether output, tag or list,
by its image, and leaves text, keywords and places alone. It goes together with changes of places
and does not touch the arrangement of the nodes, so that a misplaced `fallthrough` stays where it
is.
-/

namespace SwitchMarkup

variable {π ρ : Type}

/-- The same stretch with its text replaced by its image. -/
def Fragment.respell (g : String → String) (x : Fragment π) : Fragment π := ⟨g x.value, x.span⟩

/-- The same header with the text of its list replaced by its image. -/
def Header.respell (g : String → String) : Header π → Header π
  | .case list => .case (list.respell g)
  | .default keyword => .default keyword

mutual

/-- The same node with the texts of its expressions replaced by their images. -/
def Node.respell (g : String → String) : Node π → Node π
  | .text content => .text content
  | .output expression => .output (expression.respell g)
  | .fallthrough keyword => .fallthrough keyword
  | .switch tag clauses block => .switch (tag.respell g) (Clause.respellAll g clauses) block

/-- The same clause with the texts of its expressions replaced by their images. -/
def Clause.respell (g : String → String) : Clause π → Clause π
  | ⟨header, children⟩ => ⟨header.respell g, Template.respell g children⟩

/-- The same nodes with the texts of their expressions replaced by their images. -/
def Template.respell (g : String → String) : Template π → Template π
  | [] => []
  | node :: nodes => node.respell g :: Template.respell g nodes

/-- The same clauses with the texts of their expressions replaced by their images. -/
def Clause.respellAll (g : String → String) : List (Clause π) → List (Clause π)
  | [] => []
  | clause :: clauses => clause.respell g :: Clause.respellAll g clauses

end

variable {f : π → ρ} {g : String → String}

/-! ## Lists of nodes and clauses -/

/-- Nodes are respelt one by one. -/
theorem Template.respell_eq_map (g : String → String) (nodes : List (Node π)) :
    Template.respell g nodes = nodes.map (Node.respell g) := by
  induction nodes with
  | nil => rfl
  | cons node nodes ih => rw [Template.respell, ih, List.map_cons]

theorem Clause.respellAll_eq_map (g : String → String) (clauses : List (Clause π)) :
    Clause.respellAll g clauses = clauses.map (Clause.respell g) := by
  induction clauses with
  | nil => rfl
  | cons clause clauses ih => rw [Clause.respellAll, ih, List.map_cons]

@[simp] theorem Template.respell_append (nodes more : List (Node π)) :
    Template.respell g (nodes ++ more) = Template.respell g nodes ++ Template.respell g more := by
  simp only [Template.respell_eq_map, List.map_append]

theorem Template.isEmpty_respell (nodes : List (Node π)) :
    List.isEmpty (Template.respell g nodes) = nodes.isEmpty := by
  cases nodes with
  | nil => rfl
  | cons node nodes => rfl

@[simp] theorem Clause.respellAll_append (clauses more : List (Clause π)) :
    Clause.respellAll g (clauses ++ more) =
      Clause.respellAll g clauses ++ Clause.respellAll g more := by
  simp only [Clause.respellAll_eq_map, List.map_append]

/-! ## Changes of places -/

theorem Header.respell_map (header : Header π) :
    (header.map f).respell g = (header.respell g).map f := by
  cases header with
  | case list => rfl
  | default keyword => rfl

mutual

theorem Node.respell_map : ∀ node : Node π, (node.map f).respell g = (node.respell g).map f
  | .text _ => rfl
  | .output _ => rfl
  | .fallthrough _ => rfl
  | .switch _ clauses _ => by
    rw [Node.map, Node.respell, Node.respell, Clause.respellAll_mapAll clauses]
    rfl

theorem Clause.respell_map :
    ∀ clause : Clause π, (clause.map f).respell g = (clause.respell g).map f
  | ⟨_, children⟩ => by
    rw [Clause.map, Clause.respell, Clause.respell, Header.respell_map,
      Template.respell_map children, Clause.map]

/-- Respelling and changing places do not meet. -/
theorem Template.respell_map :
    ∀ nodes : List (Node π),
      Template.respell g (Template.map f nodes) = Template.map f (Template.respell g nodes)
  | [] => rfl
  | node :: nodes => by
    rw [Template.map, Template.respell, Template.respell, Node.respell_map node,
      Template.respell_map nodes, Template.map]

theorem Clause.respellAll_mapAll :
    ∀ clauses : List (Clause π),
      Clause.respellAll g (Clause.mapAll f clauses) = Clause.mapAll f (Clause.respellAll g clauses)
  | [] => rfl
  | clause :: clauses => by
    rw [Clause.mapAll, Clause.respellAll, Clause.respellAll, Clause.respell_map clause,
      Clause.respellAll_mapAll clauses, Clause.mapAll]

end

/-! ## Misplaced fallthroughs -/

/-- Respelling expressions does not change which `fallthrough` is early. -/
theorem earlyFallthrough?_respell (nodes : List (Node π)) :
    earlyFallthrough? (Template.respell g nodes) = earlyFallthrough? nodes := by
  induction nodes with
  | nil => rfl
  | cons node nodes ih =>
    cases node with
    | fallthrough keyword =>
      cases nodes with
      | nil => rfl
      | cons next nodes => rfl
    | text | output | switch => exact ih

theorem closingFallthrough?_respell (nodes : List (Node π)) :
    closingFallthrough? (Template.respell g nodes) = closingFallthrough? nodes := by
  rw [closingFallthrough?, closingFallthrough?, Template.respell_eq_map, List.getLast?_map]
  cases nodes.getLast? with
  | none => rfl
  | some node => cases node <;> rfl

theorem finalFallthrough?_respell (clauses : List (Clause π)) :
    finalFallthrough? (Clause.respellAll g clauses) = finalFallthrough? clauses := by
  rw [finalFallthrough?, finalFallthrough?, Clause.respellAll_eq_map, List.getLast?_map]
  cases clauses.getLast? with
  | none => rfl
  | some clause =>
    obtain ⟨header, children⟩ := clause
    exact closingFallthrough?_respell children

end SwitchMarkup

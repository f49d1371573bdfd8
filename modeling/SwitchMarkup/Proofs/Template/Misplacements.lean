import SwitchMarkup.Failure
import SwitchMarkup.Proofs.Template.Blocks
import SwitchMarkup.Proofs.Template.Placement

/-!
# The misplaced fallthroughs of a template

Each rule on `fallthrough` belongs to one part of a template: that nothing stands behind one to its
clause, that none ends the last clause to its switch. Here the fallthroughs that break a rule are
listed in the order in which those parts are completed, so that a part comes behind everything
inside of it. Main statement: the list is empty exactly when both rules hold in every switch
(`Template.misplacements_eq_nil_iff`).
-/

namespace SwitchMarkup

variable {π ρ : Type}

/-! ## The two rules -/

/-- The rules on `fallthrough` hold in the clauses of one switch. -/
structure Clause.FallthroughsAllowed (clauses : List (Clause π)) : Prop where
  none_early : ∀ clause ∈ clauses, ∀ keyword, .fallthrough keyword ∉ clause.children.dropLast
  none_final : ∀ clause ∈ clauses.getLast?, ∀ keyword,
    .fallthrough keyword ∉ clause.children.getLast?

/-- The rules on `fallthrough` hold at every depth. -/
def Template.FallthroughsAllowed (t : Template π) : Prop :=
  ∀ clauses ∈ Template.blocks t, Clause.FallthroughsAllowed clauses

/-! ## What breaks them -/

/-- The start of a node that is a `fallthrough`. -/
def Node.fallthrough? : Node π → Option π
  | .fallthrough keyword => some keyword.span.start
  | .text _ | .output _ | .switch .. => none

/-- The fallthroughs of a clause that have a node after them, in order. -/
def earlyMisplacements (children : List (Node π)) : List (Failure π) :=
  (children.dropLast.filterMap Node.fallthrough?).map (⟨·, .fallthroughNotLast⟩)

/-- The `fallthrough` at the end of the last clause, if there is one. -/
def finalMisplacements (clauses : List (Clause π)) : List (Failure π) :=
  (((clauses.getLast?.bind (·.children.getLast?)).bind Node.fallthrough?).map
    (⟨·, .fallthroughInFinalCase⟩)).toList

mutual

/-- The misplaced fallthroughs inside of a node: those of its clauses, and then its own one. -/
def Node.misplacements : Node π → List (Failure π)
  | .text _ => []
  | .output _ => []
  | .fallthrough _ => []
  | .switch _ clauses _ => Clause.misplacements clauses ++ finalMisplacements clauses

/-- The misplaced fallthroughs inside of nodes. -/
def Template.misplacements : List (Node π) → List (Failure π)
  | [] => []
  | node :: nodes => node.misplacements ++ Template.misplacements nodes

/-- The misplaced fallthroughs of clauses, where those inside of the children of a clause come in
front of those among them. -/
def Clause.misplacements : List (Clause π) → List (Failure π)
  | [] => []
  | ⟨_, children⟩ :: clauses =>
    (Template.misplacements children ++ earlyMisplacements children) ++ Clause.misplacements clauses

end

/-! ## Lists of nodes and clauses -/

variable {node : Node π} {nodes : List (Node π)} {clauses : List (Clause π)}

@[simp] theorem Template.misplacements_nil :
    Template.misplacements ([] : List (Node π)) = [] := rfl

@[simp] theorem Template.misplacements_cons (node : Node π) (nodes : List (Node π)) :
    Template.misplacements (node :: nodes) =
      node.misplacements ++ Template.misplacements nodes := rfl

@[simp] theorem Clause.misplacements_nil :
    Clause.misplacements ([] : List (Clause π)) = [] := rfl

@[simp] theorem Clause.misplacements_cons (clause : Clause π) (clauses : List (Clause π)) :
    Clause.misplacements (clause :: clauses) =
      (Template.misplacements clause.children ++ earlyMisplacements clause.children) ++
        Clause.misplacements clauses := by
  cases clause
  rfl

/-- Misplaced fallthroughs of nodes are listed one after the other. -/
@[simp] theorem Template.misplacements_append (nodes more : List (Node π)) :
    Template.misplacements (nodes ++ more) =
      Template.misplacements nodes ++ Template.misplacements more := by
  induction nodes with
  | nil => rfl
  | cons node nodes ih => simp [ih]

@[simp] theorem Clause.misplacements_append (clauses more : List (Clause π)) :
    Clause.misplacements (clauses ++ more) =
      Clause.misplacements clauses ++ Clause.misplacements more := by
  induction clauses with
  | nil => rfl
  | cons clause clauses ih => simp [ih]

/-! ## What the checks find -/

/-- The check of a clause finds the first of its early fallthroughs. -/
theorem head?_earlyMisplacements :
    (earlyMisplacements nodes).head? =
      (earlyFallthrough? nodes).map (⟨·, .fallthroughNotLast⟩) := by
  rw [earlyMisplacements, List.head?_map]
  refine congrArg (Option.map _) ?_
  induction nodes with
  | nil => rfl
  | cons node nodes ih =>
    cases nodes with
    | nil => cases node <;> rfl
    | cons next nodes =>
      rw [List.dropLast_cons_cons]
      cases node with
      | fallthrough keyword => rfl
      | text | output | switch => exact ih

/-- The check of a switch finds its one misplaced `fallthrough`. -/
theorem finalMisplacements_eq :
    finalMisplacements clauses =
      ((finalFallthrough? clauses).map (⟨·, .fallthroughInFinalCase⟩)).toList := by
  rw [finalMisplacements, finalFallthrough?, Option.bind_assoc]
  refine congrArg (fun place : Option π => (place.map _).toList) ?_
  refine congrArg clauses.getLast?.bind (funext fun clause => ?_)
  rw [closingFallthrough?]
  cases clause.children.getLast? with
  | none => rfl
  | some node => cases node <;> rfl

/-- No `fallthrough` is early just where all that there are come last. -/
theorem earlyMisplacements_eq_nil_iff :
    earlyMisplacements nodes = [] ↔ ∀ keyword, .fallthrough keyword ∉ nodes.dropLast := by
  rw [← List.head?_eq_none_iff, head?_earlyMisplacements, Option.map_eq_none_iff,
    earlyFallthrough?_eq_none_iff]

/-- No `fallthrough` is final just where the last clause does not end with one. -/
theorem finalMisplacements_eq_nil_iff :
    finalMisplacements clauses = [] ↔
      ∀ clause ∈ clauses.getLast?, ∀ keyword, .fallthrough keyword ∉ clause.children.getLast? := by
  rw [finalMisplacements_eq, Option.toList_eq_nil_iff, Option.map_eq_none_iff,
    finalFallthrough?_eq_none_iff]

/-! ## None are misplaced where the rules hold -/

mutual

/-- Nothing is misplaced in a node just where all of its blocks allow their fallthroughs. -/
theorem Node.misplacements_eq_nil_iff :
    ∀ node : Node π, node.misplacements = [] ↔
      ∀ clauses ∈ node.blocks, Clause.FallthroughsAllowed clauses
  | .text _ => iff_of_true rfl nofun
  | .output _ => iff_of_true rfl nofun
  | .fallthrough _ => iff_of_true rfl nofun
  | .switch _ clauses _ => by
    rw [Node.misplacements, Node.blocks, List.append_eq_nil_iff, List.forall_mem_cons,
      Clause.misplacements_eq_nil_iff clauses, finalMisplacements_eq_nil_iff]
    constructor
    · rintro ⟨⟨hearly, hblocks⟩, hfinal⟩
      exact ⟨⟨hearly, hfinal⟩, hblocks⟩
    · rintro ⟨⟨hearly, hfinal⟩, hblocks⟩
      exact ⟨⟨hearly, hblocks⟩, hfinal⟩

theorem Template.misplacements_eq_nil_iff :
    ∀ nodes : List (Node π), Template.misplacements nodes = [] ↔
      Template.FallthroughsAllowed nodes
  | [] => iff_of_true rfl nofun
  | node :: nodes => by
    rw [Template.misplacements, Template.FallthroughsAllowed, Template.blocks,
      List.append_eq_nil_iff, List.forall_mem_append, Node.misplacements_eq_nil_iff node,
      Template.misplacements_eq_nil_iff nodes]
    rfl

/-- Clauses without a misplaced `fallthrough` have none early, and none anywhere inside of them. -/
theorem Clause.misplacements_eq_nil_iff :
    ∀ clauses : List (Clause π), Clause.misplacements clauses = [] ↔
      (∀ clause ∈ clauses, ∀ keyword, .fallthrough keyword ∉ clause.children.dropLast) ∧
        ∀ block ∈ Clause.blocks clauses, Clause.FallthroughsAllowed block
  | [] => iff_of_true rfl ⟨nofun, nofun⟩
  | ⟨_, children⟩ :: clauses => by
    rw [Clause.misplacements, Clause.blocks, List.append_eq_nil_iff, List.append_eq_nil_iff,
      List.forall_mem_cons, List.forall_mem_append, Template.misplacements_eq_nil_iff children,
      earlyMisplacements_eq_nil_iff, Clause.misplacements_eq_nil_iff clauses]
    constructor
    · rintro ⟨⟨hchildren, hearly⟩, hmore, hblocks⟩
      exact ⟨⟨hearly, hmore⟩, hchildren, hblocks⟩
    · rintro ⟨⟨hearly, hmore⟩, hchildren, hblocks⟩
      exact ⟨⟨hchildren, hearly⟩, hmore, hblocks⟩

end

/-! ## Changes of places -/

theorem Node.fallthrough?_map (f : π → ρ) (node : Node π) :
    (node.map f).fallthrough? = node.fallthrough?.map f := by
  cases node <;> rfl

theorem earlyMisplacements_map (f : π → ρ) (nodes : List (Node π)) :
    earlyMisplacements (Template.map f nodes) = (earlyMisplacements nodes).map (Failure.map f) := by
  rw [earlyMisplacements, earlyMisplacements, Template.map_eq_map, ← List.map_dropLast,
    List.filterMap_map, List.map_map]
  have hplaces : nodes.dropLast.filterMap (Node.fallthrough? ∘ Node.map f) =
      (nodes.dropLast.filterMap Node.fallthrough?).map f := by
    rw [List.map_filterMap]
    exact congrArg (nodes.dropLast.filterMap ·) (funext (Node.fallthrough?_map f))
  rw [hplaces, List.map_map]
  rfl

theorem finalMisplacements_map (f : π → ρ) (clauses : List (Clause π)) :
    finalMisplacements (Clause.mapAll f clauses) =
      (finalMisplacements clauses).map (Failure.map f) := by
  rw [finalMisplacements_eq, finalMisplacements_eq, finalFallthrough?_map]
  cases finalFallthrough? clauses <;> rfl

mutual

theorem Node.misplacements_map (f : π → ρ) :
    ∀ node : Node π, (node.map f).misplacements = node.misplacements.map (Failure.map f)
  | .text _ => rfl
  | .output _ => rfl
  | .fallthrough _ => rfl
  | .switch _ clauses _ => by
    rw [Node.map, Node.misplacements, Node.misplacements, Clause.misplacements_mapAll f clauses,
      finalMisplacements_map, List.map_append]

/-- Misplaced fallthroughs are told in other places. -/
theorem Template.misplacements_map (f : π → ρ) :
    ∀ nodes : List (Node π),
      Template.misplacements (Template.map f nodes) =
        (Template.misplacements nodes).map (Failure.map f)
  | [] => rfl
  | node :: nodes => by
    rw [Template.map, Template.misplacements, Template.misplacements, Node.misplacements_map f node,
      Template.misplacements_map f nodes, List.map_append]

theorem Clause.misplacements_mapAll (f : π → ρ) :
    ∀ clauses : List (Clause π),
      Clause.misplacements (Clause.mapAll f clauses) =
        (Clause.misplacements clauses).map (Failure.map f)
  | [] => rfl
  | ⟨_, children⟩ :: clauses => by
    rw [Clause.mapAll, Clause.map, Clause.misplacements, Clause.misplacements,
      Template.misplacements_map f children, earlyMisplacements_map,
      Clause.misplacements_mapAll f clauses, List.map_append, List.map_append]

end

end SwitchMarkup

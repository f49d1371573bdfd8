import SwitchMarkup.Parser.State
import SwitchMarkup.Template.Placement
import SwitchMarkup.Template.Printer

/-!
# What a change of places keeps

`Template.map` replaces the places of a template and touches nothing else. So changes of places
compose, none of them shows in the shape or in the canonical source, and a misplaced `fallthrough`
is found in the image where it is found in the template.
-/

namespace SwitchMarkup

variable {π ρ σ : Type}

/-! ## Composition -/

theorem Fragment.map_map (f : π → ρ) (g : ρ → σ) (x : Fragment π) :
    (x.map f).map g = x.map (g ∘ f) := rfl

theorem Header.map_map (f : π → ρ) (g : ρ → σ) (header : Header π) :
    (header.map f).map g = header.map (g ∘ f) := by
  cases header <;> rfl

theorem Header.map_unit (header : Header Unit) : header.map (fun _ => ()) = header := by
  cases header <;> rfl

mutual

theorem Node.map_map (f : π → ρ) (g : ρ → σ) :
    ∀ node : Node π, (node.map f).map g = node.map (g ∘ f)
  | .text _ => by simp only [Node.map, Fragment.map_map]
  | .output _ => by simp only [Node.map, Fragment.map_map]
  | .fallthrough _ => by simp only [Node.map, Fragment.map_map]
  | .switch _ clauses _ => by
    simp only [Node.map, Fragment.map_map, Clause.mapAll_mapAll f g clauses]
    rfl

theorem Clause.map_map (f : π → ρ) (g : ρ → σ) :
    ∀ clause : Clause π, (clause.map f).map g = clause.map (g ∘ f)
  | ⟨_, children⟩ => by
    simp only [Clause.map, Header.map_map, Template.map_map f g children]

/-- Places that are changed twice are changed by the composition. -/
theorem Template.map_map (f : π → ρ) (g : ρ → σ) :
    ∀ nodes : List (Node π), Template.map g (Template.map f nodes) = Template.map (g ∘ f) nodes
  | [] => rfl
  | node :: nodes => by
    simp only [Template.map, Node.map_map f g node, Template.map_map f g nodes]

theorem Clause.mapAll_mapAll (f : π → ρ) (g : ρ → σ) :
    ∀ clauses : List (Clause π),
      Clause.mapAll g (Clause.mapAll f clauses) = Clause.mapAll (g ∘ f) clauses
  | [] => rfl
  | clause :: clauses => by
    simp only [Clause.mapAll, Clause.map_map f g clause, Clause.mapAll_mapAll f g clauses]

end

/-- Places do not belong to the shape. -/
@[simp] theorem Template.shape_map (f : π → ρ) (nodes : List (Node π)) :
    Template.shape (Template.map f nodes) = Template.shape nodes :=
  Template.map_map f _ nodes

/-! ## Lists of nodes and clauses -/

@[simp] theorem Template.map_nil (f : π → ρ) : Template.map f [] = [] := rfl

@[simp] theorem Template.map_cons (f : π → ρ) (node : Node π) (nodes : List (Node π)) :
    Template.map f (node :: nodes) = node.map f :: Template.map f nodes := rfl

@[simp] theorem Clause.mapAll_nil (f : π → ρ) : Clause.mapAll f [] = [] := rfl

@[simp] theorem Clause.mapAll_cons (f : π → ρ) (clause : Clause π) (clauses : List (Clause π)) :
    Clause.mapAll f (clause :: clauses) = clause.map f :: Clause.mapAll f clauses := rfl

/-- Places change on both sides of an append. -/
@[simp] theorem Template.map_append (f : π → ρ) (nodes more : List (Node π)) :
    Template.map f (nodes ++ more) = Template.map f nodes ++ Template.map f more := by
  simp only [Template.map_eq_map, List.map_append]

theorem Template.isEmpty_map (f : π → ρ) (nodes : List (Node π)) :
    List.isEmpty (Template.map f nodes) = nodes.isEmpty := by
  cases nodes <;> rfl

@[simp] theorem Clause.mapAll_append (f : π → ρ) (clauses more : List (Clause π)) :
    Clause.mapAll f (clauses ++ more) = Clause.mapAll f clauses ++ Clause.mapAll f more := by
  simp only [Clause.mapAll_eq_map, List.map_append]

@[simp] theorem Clause.length_mapAll (f : π → ρ) (clauses : List (Clause π)) :
    (Clause.mapAll f clauses).length = clauses.length := by
  rw [Clause.mapAll_eq_map, List.length_map]

@[simp] theorem Template.shape_append (nodes more : List (Node π)) :
    Template.shape (nodes ++ more) = Template.shape nodes ++ Template.shape more :=
  Template.map_append _ nodes more

/-- Nodes of one shape begin with nodes of one shape. -/
theorem Template.exists_of_shape_eq_cons {reads : List (Node π)} {node : Node ρ}
    {nodes : List (Node ρ)} (h : Template.shape reads = Template.shape (node :: nodes)) :
    ∃ read more, reads = read :: more ∧ read.map (fun _ => ()) = node.map (fun _ => ()) ∧
      Template.shape more = Template.shape nodes := by
  cases reads with
  | nil => cases h
  | cons read more =>
    obtain ⟨hnode, hnodes⟩ := List.cons_eq_cons.1 h
    exact ⟨read, more, rfl, hnode, hnodes⟩

/-! ## Equal shapes -/

/-- Fragments with the same value have the same shape. -/
theorem Fragment.shape_eq {x : Fragment π} {y : Fragment ρ} (h : x.value = y.value) :
    x.map (fun _ => ()) = y.map fun _ => () := by
  rw [Fragment.map, Fragment.map, h]
  rfl

/-- Switches with the same tag and clauses of the same shape have the same shape. -/
theorem Node.shape_switch_eq {tag : Fragment π} {tag' : Fragment ρ} {clauses : List (Clause π)}
    {clauses' : List (Clause ρ)} {block : Span π} {block' : Span ρ} (htag : tag.value = tag'.value)
    (hclauses : Clause.mapAll (fun _ => ()) clauses = Clause.mapAll (fun _ => ()) clauses') :
    (Node.switch tag clauses block).map (fun _ => ()) =
      (Node.switch tag' clauses' block').map fun _ => () := by
  rw [Node.map, Node.map, Fragment.shape_eq htag, hclauses]
  rfl

/-- Nodes that have the same shape one by one have it together. -/
theorem Template.shape_cons_eq {node : Node π} {node' : Node ρ} {nodes : List (Node π)}
    {nodes' : List (Node ρ)} (hnode : node.map (fun _ => ()) = node'.map fun _ => ())
    (hnodes : Template.shape nodes = Template.shape nodes') :
    Template.shape (node :: nodes) = Template.shape (node' :: nodes') := by
  rw [Template.shape, Template.shape, Template.map_cons, Template.map_cons, hnode]
  exact congrArg (_ :: ·) hnodes

theorem Clause.shape_cons_eq {header : Header π} {header' : Header ρ} {children : List (Node π)}
    {children' : List (Node ρ)} {clauses : List (Clause π)} {clauses' : List (Clause ρ)}
    (hheader : header.map (fun _ => ()) = header'.map fun _ => ())
    (hchildren : Template.shape children = Template.shape children')
    (hclauses : Clause.mapAll (fun _ => ()) clauses = Clause.mapAll (fun _ => ()) clauses') :
    Clause.mapAll (fun _ => ()) (⟨header, children⟩ :: clauses) =
      Clause.mapAll (fun _ => ()) (⟨header', children'⟩ :: clauses') := by
  rw [Clause.mapAll_cons, Clause.mapAll_cons, Clause.map, Clause.map, hheader, hclauses]
  exact congrArg (fun children => Clause.mk _ children :: _) hchildren

/-! ## Members -/

theorem Template.mem_map_of_mem (f : π → ρ) {node : Node π} {nodes : List (Node π)}
    (h : node ∈ nodes) : node.map f ∈ Template.map f nodes := by
  rw [Template.map_eq_map]
  exact List.mem_map_of_mem h

/-- A `fallthrough` among nodes with other places comes of one among the nodes. -/
theorem Template.exists_of_fallthrough_mem_map {f : π → ρ} {keyword : Fragment ρ}
    {nodes : List (Node π)} (h : .fallthrough keyword ∈ Template.map f nodes) :
    ∃ keyword', .fallthrough keyword' ∈ nodes ∧ keyword'.map f = keyword := by
  rw [Template.map_eq_map] at h
  obtain ⟨node, hmem, hnode⟩ := List.mem_map.1 h
  cases node with
  | fallthrough keyword' =>
    cases hnode
    exact ⟨keyword', hmem, rfl⟩
  | text | output | switch => cases hnode

theorem Clause.children_map (f : π → ρ) (clause : Clause π) :
    (clause.map f).children = Template.map f clause.children := by
  cases clause
  rfl

theorem Clause.header_map (f : π → ρ) (clause : Clause π) :
    (clause.map f).header = clause.header.map f := by
  cases clause
  rfl

/-! ## Misplaced fallthroughs -/

/-- The early `fallthrough` is told in other places. -/
theorem earlyFallthrough?_map (f : π → ρ) (nodes : List (Node π)) :
    earlyFallthrough? (Template.map f nodes) = (earlyFallthrough? nodes).map f := by
  induction nodes with
  | nil => rfl
  | cons node nodes ih =>
    cases node with
    | fallthrough keyword =>
      cases nodes with
      | nil => rfl
      | cons next nodes => rfl
    | text | output | switch => exact ih

theorem closingFallthrough?_map (f : π → ρ) (nodes : List (Node π)) :
    closingFallthrough? (Template.map f nodes) = (closingFallthrough? nodes).map f := by
  rw [closingFallthrough?, closingFallthrough?, Template.map_eq_map, List.getLast?_map]
  cases nodes.getLast? with
  | none => rfl
  | some node => cases node <;> rfl

theorem finalFallthrough?_map (f : π → ρ) (clauses : List (Clause π)) :
    finalFallthrough? (Clause.mapAll f clauses) = (finalFallthrough? clauses).map f := by
  rw [finalFallthrough?, finalFallthrough?, Clause.mapAll_eq_map, List.getLast?_map]
  cases clauses.getLast? with
  | none => rfl
  | some clause =>
    obtain ⟨header, children⟩ := clause
    exact closingFallthrough?_map f children

theorem Options.enforced_map (o : Options) (f : π → ρ) (misplaced : Option π) :
    o.enforced (misplaced.map f) = (o.enforced misplaced).map f := by
  rw [Options.enforced, Options.enforced]
  split
  · rfl
  · rfl

/-- Whether a `fallthrough` is misplaced can be seen from the shape. -/
theorem earlyFallthrough?_eq_none_of_shape {reads : List (Node ρ)} {nodes : List (Node π)}
    (h : Template.shape reads = Template.shape nodes) :
    earlyFallthrough? reads = none ↔ earlyFallthrough? nodes = none := by
  rw [← Option.map_eq_none_iff (f := fun _ => ()), ← earlyFallthrough?_map, ← Template.shape, h,
    Template.shape, earlyFallthrough?_map, Option.map_eq_none_iff]

/-- Whether there is a final `fallthrough` is seen from the shape. -/
theorem finalFallthrough?_eq_none_of_shape {reads : List (Clause ρ)} {clauses : List (Clause π)}
    (h : Clause.mapAll (fun _ => ()) reads = Clause.mapAll (fun _ => ()) clauses) :
    finalFallthrough? reads = none ↔ finalFallthrough? clauses = none := by
  rw [← Option.map_eq_none_iff (f := fun _ => ()), ← finalFallthrough?_map, h,
    finalFallthrough?_map, Option.map_eq_none_iff]

/-! ## The canonical source -/

theorem LineState.after_map (f : π → ρ) (node : Node π) :
    LineState.after (node.map f) = LineState.after node := by
  cases node <;> rfl

theorem LineState.lead_map (f : π → ρ) (line : LineState) (depth : Nat) (node : Node π) :
    line.lead depth (node.map f) = line.lead depth node := by
  cases line <;> cases node <;> rfl

theorem Header.line_map (f : π → ρ) (header : Header π) : (header.map f).line = header.line := by
  cases header <;> rfl

mutual

/-- Printing a node does not look at places. -/
theorem Node.write_map (f : π → ρ) (depth : Nat) :
    ∀ (node : Node π) (rest : List Char), (node.map f).write depth rest = node.write depth rest
  | .text _, _ => rfl
  | .output _, _ => rfl
  | .fallthrough _, _ => rfl
  | .switch _ clauses _, _ => by
    simp only [Node.map, Node.write, Clause.writeAll_map f depth clauses]
    rfl

theorem Clause.write_map (f : π → ρ) (depth : Nat) :
    ∀ (clause : Clause π) (rest : List Char),
      (clause.map f).write depth rest = clause.write depth rest
  | ⟨_, children⟩, _ => by
    simp only [Clause.map, Clause.write, Header.line_map, Template.write_map f _ _ children]

/-- Printing nodes does not look at places. -/
theorem Template.write_map (f : π → ρ) (depth : Nat) (line : LineState) :
    ∀ (nodes : List (Node π)) (rest : List Char),
      Template.write depth line (Template.map f nodes) rest = Template.write depth line nodes rest
  | [], _ => rfl
  | node :: nodes, _ => by
    simp only [Template.map, Template.write, LineState.lead_map, LineState.after_map,
      Node.write_map f depth node, Template.write_map f depth _ nodes]

theorem Clause.writeAll_map (f : π → ρ) (depth : Nat) :
    ∀ (clauses : List (Clause π)) (rest : List Char),
      Clause.writeAll depth (Clause.mapAll f clauses) rest = Clause.writeAll depth clauses rest
  | [], _ => rfl
  | clause :: clauses, _ => by
    simp only [Clause.mapAll, Clause.writeAll, Clause.write_map f depth clause,
      Clause.writeAll_map f depth clauses]

end

/-- Templates of one shape have one canonical source. -/
theorem Template.print_eq_of_shape_eq {t : Template π} {u : Template ρ}
    (h : t.shape = u.shape) : t.print = u.print := by
  have ht := Template.write_map (fun _ => ()) 0 .fresh t []
  have hu := Template.write_map (fun _ => ()) 0 .fresh u []
  rw [Template.shape, Template.shape] at h
  rw [Template.print, Template.print, ← ht, ← hu, h]

end SwitchMarkup

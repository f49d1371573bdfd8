import SwitchMarkup.Expression.Items
import SwitchMarkup.Proofs.Template.Spans

/-!
# The expressions of a template

Tags, lists and outputs are the parts of a template whose texts are expressions of another language.
`Template.expressions` lists them at every depth, and `Template.Replaces` relates two templates that
differ in the text of one of them. No such difference shows in where a `fallthrough` stands.
-/

namespace SwitchMarkup

variable {π ρ : Type} {kind : Items.Kind} {x : Fragment π} {v : String} {node node' : Node π}
  {nodes nodes' : List (Node π)} {clauses clauses' : List (Clause π)}

/-! ## All expressions -/

/-- The list of a header, with the kind of its items. -/
def Header.expressions : Header π → List (Items.Kind × Fragment π)
  | .case list => [(.list, list)]
  | .default _ => []

mutual

/-- The expressions of a node in the order in which they are read, with the kinds of their items. -/
def Node.expressions : Node π → List (Items.Kind × Fragment π)
  | .text _ => []
  | .output expression => [(.braced, expression)]
  | .fallthrough _ => []
  | .switch tag clauses _ => (.tag, tag) :: Clause.expressions clauses

/-- The expressions of nodes in the order in which they are read, with the kinds of their items. -/
def Template.expressions : Template π → List (Items.Kind × Fragment π)
  | [] => []
  | node :: nodes => node.expressions ++ Template.expressions nodes

/-- The expressions of clauses in the order in which they are read, with the kinds of their
items. -/
def Clause.expressions : List (Clause π) → List (Items.Kind × Fragment π)
  | [] => []
  | ⟨header, children⟩ :: clauses =>
    header.expressions ++ (Template.expressions children ++ Clause.expressions clauses)

end

theorem Header.expressions_map (f : π → ρ) (header : Header π) :
    (header.map f).expressions = header.expressions.map (Prod.map id (Fragment.map f)) := by
  cases header with
  | case list => rfl
  | default keyword => rfl

mutual

theorem Node.expressions_map (f : π → ρ) :
    ∀ node : Node π,
      (node.map f).expressions = node.expressions.map (Prod.map id (Fragment.map f))
  | .text _ => rfl
  | .output _ => rfl
  | .fallthrough _ => rfl
  | .switch _ clauses _ => by
    rw [Node.map, Node.expressions, Node.expressions, Clause.expressions_mapAll f clauses]
    rfl

/-- The expressions of nodes with other places are the expressions with other places. -/
theorem Template.expressions_map (f : π → ρ) :
    ∀ nodes : List (Node π),
      Template.expressions (Template.map f nodes) =
        (Template.expressions nodes).map (Prod.map id (Fragment.map f))
  | [] => rfl
  | node :: nodes => by
    rw [Template.map, Template.expressions, Template.expressions, Node.expressions_map f node,
      Template.expressions_map f nodes, List.map_append]

theorem Clause.expressions_mapAll (f : π → ρ) :
    ∀ clauses : List (Clause π),
      Clause.expressions (Clause.mapAll f clauses) =
        (Clause.expressions clauses).map (Prod.map id (Fragment.map f))
  | [] => rfl
  | ⟨header, children⟩ :: clauses => by
    rw [Clause.mapAll, Clause.map, Clause.expressions, Clause.expressions, Header.expressions_map,
      Template.expressions_map f children, Clause.expressions_mapAll f clauses, List.map_append,
      List.map_append]

end

mutual

/-- The stretch of an expression in a node is one of its leaves. -/
theorem Node.span_mem_leaves :
    ∀ node : Node π, (kind, x) ∈ node.expressions → x.span ∈ node.leaves
  | .text _, h => nomatch h
  | .fallthrough _, h => nomatch h
  | .output _, h => by
    cases List.mem_singleton.1 h
    exact List.mem_singleton_self _
  | .switch _ clauses _, h => by
    rcases List.mem_cons.1 h with heq | h
    · cases heq
      exact List.mem_cons_self
    · exact List.mem_cons_of_mem _ (Clause.span_mem_leaves clauses h)

/-- The stretch of an expression is one of the stretches of the template. -/
theorem Template.span_mem_leaves :
    ∀ nodes : List (Node π), (kind, x) ∈ Template.expressions nodes →
      x.span ∈ Template.leaves nodes
  | [], h => nomatch h
  | node :: nodes, h => by
    rw [Template.leaves, List.mem_append]
    exact (List.mem_append.1 h).imp (Node.span_mem_leaves node) (Template.span_mem_leaves nodes)

theorem Clause.span_mem_leaves :
    ∀ clauses : List (Clause π), (kind, x) ∈ Clause.expressions clauses →
      x.span ∈ Clause.leaves clauses
  | [], h => nomatch h
  | ⟨header, children⟩ :: clauses, h => by
    rw [Clause.leaves, List.mem_cons, List.mem_append]
    rcases List.mem_append.1 h with h | h
    · cases header with
      | case list =>
        cases List.mem_singleton.1 h
        exact .inl rfl
      | default keyword => cases h
    · exact .inr ((List.mem_append.1 h).imp (Template.span_mem_leaves children)
        (Clause.span_mem_leaves clauses))

end

/-! ## Another text for one expression -/

mutual

/-- In the second node, one expression `x` of the kind has the text `v`; all else is the same. -/
inductive Node.Replaces (v : String) : Items.Kind → Fragment π → Node π → Node π → Prop
  /-- The text of an output. -/
  | output {expression : Fragment π} :
      Node.Replaces v .braced expression (.output expression) (.output ⟨v, expression.span⟩)
  /-- The text of a tag. -/
  | tag {tag : Fragment π} {clauses : List (Clause π)} {block : Span π} :
      Node.Replaces v .tag tag (.switch tag clauses block) (.switch ⟨v, tag.span⟩ clauses block)
  /-- A text in a clause. -/
  | clauses {kind : Items.Kind} {x tag : Fragment π} {clauses clauses' : List (Clause π)}
      {block : Span π} (h : Clause.Replaces v kind x clauses clauses') :
      Node.Replaces v kind x (.switch tag clauses block) (.switch tag clauses' block)

/-- In the second template, one expression `x` of the kind has the text `v`; all else is the
same. -/
inductive Template.Replaces (v : String) :
    Items.Kind → Fragment π → List (Node π) → List (Node π) → Prop
  /-- A text in the first node. -/
  | head {kind : Items.Kind} {x : Fragment π} {node node' : Node π} {nodes : List (Node π)}
      (h : Node.Replaces v kind x node node') :
      Template.Replaces v kind x (node :: nodes) (node' :: nodes)
  /-- A text in a later node. -/
  | tail {kind : Items.Kind} {x : Fragment π} {node : Node π} {nodes nodes' : List (Node π)}
      (h : Template.Replaces v kind x nodes nodes') :
      Template.Replaces v kind x (node :: nodes) (node :: nodes')

/-- In the second list of clauses, one expression `x` of the kind has the text `v`; all else is the
same. -/
inductive Clause.Replaces (v : String) :
    Items.Kind → Fragment π → List (Clause π) → List (Clause π) → Prop
  /-- The text of a list. -/
  | list {list : Fragment π} {children : List (Node π)} {clauses : List (Clause π)} :
      Clause.Replaces v .list list (⟨.case list, children⟩ :: clauses)
        (⟨.case ⟨v, list.span⟩, children⟩ :: clauses)
  /-- A text in the first clause. -/
  | children {kind : Items.Kind} {x : Fragment π} {header : Header π}
      {children children' : List (Node π)} {clauses : List (Clause π)}
      (h : Template.Replaces v kind x children children') :
      Clause.Replaces v kind x (⟨header, children⟩ :: clauses) (⟨header, children'⟩ :: clauses)
  /-- A text in a later clause. -/
  | tail {kind : Items.Kind} {x : Fragment π} {clause : Clause π}
      {clauses clauses' : List (Clause π)}
      (h : Clause.Replaces v kind x clauses clauses') :
      Clause.Replaces v kind x (clause :: clauses) (clause :: clauses')

end

mutual

/-- Every expression of a node can be replaced. -/
theorem Node.exists_replaces (v : String) :
    ∀ node : Node π, (kind, x) ∈ node.expressions → ∃ node', Node.Replaces v kind x node node'
  | .text _, h => nomatch h
  | .fallthrough _, h => nomatch h
  | .output _, h => by
    cases List.mem_singleton.1 h
    exact ⟨_, .output⟩
  | .switch _ clauses _, h => by
    rcases List.mem_cons.1 h with heq | h
    · cases heq
      exact ⟨_, .tag⟩
    · obtain ⟨clauses', hclauses⟩ := Clause.exists_replaces v clauses h
      exact ⟨_, .clauses hclauses⟩

/-- Any expression of a template can be given another text. -/
theorem Template.exists_replaces (v : String) :
    ∀ nodes : List (Node π), (kind, x) ∈ Template.expressions nodes →
      ∃ nodes', Template.Replaces v kind x nodes nodes'
  | [], h => nomatch h
  | node :: nodes, h => by
    rcases List.mem_append.1 h with h | h
    · obtain ⟨node', hnode⟩ := Node.exists_replaces v node h
      exact ⟨_, .head hnode⟩
    · obtain ⟨nodes', hnodes⟩ := Template.exists_replaces v nodes h
      exact ⟨_, .tail hnodes⟩

theorem Clause.exists_replaces (v : String) :
    ∀ clauses : List (Clause π), (kind, x) ∈ Clause.expressions clauses →
      ∃ clauses', Clause.Replaces v kind x clauses clauses'
  | [], h => nomatch h
  | ⟨header, children⟩ :: clauses, h => by
    rcases List.mem_append.1 h with h | h
    · cases header with
      | case list =>
        cases List.mem_singleton.1 h
        exact ⟨_, .list⟩
      | default keyword => cases h
    · rcases List.mem_append.1 h with h | h
      · obtain ⟨children', hchildren⟩ := Template.exists_replaces v children h
        exact ⟨_, .children hchildren⟩
      · obtain ⟨clauses', hclauses⟩ := Clause.exists_replaces v clauses h
        exact ⟨_, .tail hclauses⟩

end

/-! ## Changes of places -/

mutual

/-- A replacement among other places comes of a replacement. -/
theorem Node.exists_of_replaces_map (f : π → ρ) :
    ∀ (node : Node π) {kind y node'}, Node.Replaces v kind y (node.map f) node' →
      ∃ x more, y = x.map f ∧ node' = more.map f ∧ Node.Replaces v kind x node more
  | .text _, _, _, _, h => nomatch h
  | .fallthrough _, _, _, _, h => nomatch h
  | .output expression, _, _, _, h => by
    cases h
    exact ⟨expression, _, rfl, rfl, .output⟩
  | .switch tag clauses _, _, _, _, h => by
    cases h with
    | tag => exact ⟨tag, _, rfl, rfl, .tag⟩
    | clauses h =>
      obtain ⟨x, more, rfl, rfl, hmore⟩ := Clause.exists_of_replaces_mapAll f clauses h
      exact ⟨x, _, rfl, rfl, .clauses hmore⟩

/-- Where one expression of an image has another text, so has one of the template. -/
theorem Template.exists_of_replaces_map (f : π → ρ) :
    ∀ (nodes : List (Node π)) {kind y nodes'},
      Template.Replaces v kind y (Template.map f nodes) nodes' →
      ∃ x more, y = x.map f ∧ nodes' = Template.map f more ∧ Template.Replaces v kind x nodes more
  | [], _, _, _, h => nomatch h
  | node :: nodes, _, _, _, h => by
    cases h with
    | head h =>
      obtain ⟨x, more, rfl, rfl, hmore⟩ := Node.exists_of_replaces_map f node h
      exact ⟨x, _, rfl, rfl, .head hmore⟩
    | tail h =>
      obtain ⟨x, more, rfl, rfl, hmore⟩ := Template.exists_of_replaces_map f nodes h
      exact ⟨x, _, rfl, rfl, .tail hmore⟩

theorem Clause.exists_of_replaces_mapAll (f : π → ρ) :
    ∀ (clauses : List (Clause π)) {kind y clauses'},
      Clause.Replaces v kind y (Clause.mapAll f clauses) clauses' →
      ∃ x more, y = x.map f ∧ clauses' = Clause.mapAll f more ∧
        Clause.Replaces v kind x clauses more
  | [], _, _, _, h => nomatch h
  | ⟨header, children⟩ :: clauses, _, _, _, h => by
    cases header with
    | case list =>
      cases h with
      | list => exact ⟨list, _, rfl, rfl, .list⟩
      | children h =>
        obtain ⟨x, more, rfl, rfl, hmore⟩ := Template.exists_of_replaces_map f children h
        exact ⟨x, _, rfl, rfl, .children hmore⟩
      | tail h =>
        obtain ⟨x, more, rfl, rfl, hmore⟩ := Clause.exists_of_replaces_mapAll f clauses h
        exact ⟨x, _, rfl, rfl, .tail hmore⟩
    | default keyword =>
      cases h with
      | children h =>
        obtain ⟨x, more, rfl, rfl, hmore⟩ := Template.exists_of_replaces_map f children h
        exact ⟨x, _, rfl, rfl, .children hmore⟩
      | tail h =>
        obtain ⟨x, more, rfl, rfl, hmore⟩ := Clause.exists_of_replaces_mapAll f clauses h
        exact ⟨x, _, rfl, rfl, .tail hmore⟩

end

/-! ## Misplaced fallthroughs -/

theorem Template.Replaces.ne_nil (h : Template.Replaces v kind x nodes nodes') :
    nodes ≠ [] ∧ nodes' ≠ [] := by
  cases h with
  | head => exact ⟨List.cons_ne_nil _ _, List.cons_ne_nil _ _⟩
  | tail => exact ⟨List.cons_ne_nil _ _, List.cons_ne_nil _ _⟩

theorem Clause.Replaces.ne_nil (h : Clause.Replaces v kind x clauses clauses') :
    clauses ≠ [] ∧ clauses' ≠ [] := by
  cases h with
  | list => exact ⟨List.cons_ne_nil _ _, List.cons_ne_nil _ _⟩
  | children => exact ⟨List.cons_ne_nil _ _, List.cons_ne_nil _ _⟩
  | tail => exact ⟨List.cons_ne_nil _ _, List.cons_ne_nil _ _⟩

/-- Replacing an expression does not change which `fallthrough` is early. -/
theorem Template.Replaces.earlyFallthrough? :
    ∀ {nodes nodes'}, Template.Replaces v kind x nodes nodes' →
      earlyFallthrough? nodes' = earlyFallthrough? nodes
  | _, _, .head h => by
    cases h with
    | output => rfl
    | tag => rfl
    | clauses => rfl
  | _, _, @Template.Replaces.tail _ _ _ _ node nodes nodes' h => by
    cases node with
    | fallthrough keyword =>
      obtain ⟨hnodes, hnodes'⟩ := h.ne_nil
      cases nodes with
      | nil => exact absurd rfl hnodes
      | cons next nodes =>
        cases nodes' with
        | nil => exact absurd rfl hnodes'
        | cons next' nodes' => rfl
    | text | output | switch => exact h.earlyFallthrough?

theorem closingFallthrough?_cons (node : Node π) (h : nodes ≠ []) :
    closingFallthrough? (node :: nodes) = closingFallthrough? nodes := by
  rw [closingFallthrough?, closingFallthrough?, List.getLast?_cons_of_ne_nil h]

/-- Replacing an expression does not change which `fallthrough` ends the nodes. -/
theorem Template.Replaces.closingFallthrough? :
    ∀ {nodes nodes'}, Template.Replaces v kind x nodes nodes' →
      closingFallthrough? nodes' = closingFallthrough? nodes
  | _, _, @Template.Replaces.head _ _ _ _ node node' nodes h => by
    cases nodes with
    | nil =>
      cases h with
      | output => rfl
      | tag => rfl
      | clauses => rfl
    | cons next nodes =>
      rw [closingFallthrough?_cons _ (List.cons_ne_nil next nodes),
        closingFallthrough?_cons _ (List.cons_ne_nil next nodes)]
  | _, _, .tail h => by
    obtain ⟨hnodes, hnodes'⟩ := h.ne_nil
    rw [closingFallthrough?_cons _ hnodes, closingFallthrough?_cons _ hnodes',
      h.closingFallthrough?]

theorem finalFallthrough?_cons (clause : Clause π) (h : clauses ≠ []) :
    finalFallthrough? (clause :: clauses) = finalFallthrough? clauses := by
  rw [finalFallthrough?, finalFallthrough?, List.getLast?_cons_of_ne_nil h]

/-- Replacing an expression does not change which `fallthrough` is final. -/
theorem Clause.Replaces.finalFallthrough? :
    ∀ {kind} {x : Fragment π} {clauses clauses'}, Clause.Replaces v kind x clauses clauses' →
      finalFallthrough? clauses' = finalFallthrough? clauses
  | _, _, _, _, @Clause.Replaces.list _ _ _ _ clauses => by
    cases clauses with
    | nil => rfl
    | cons next clauses =>
      rw [finalFallthrough?_cons _ (List.cons_ne_nil next clauses),
        finalFallthrough?_cons _ (List.cons_ne_nil next clauses)]
  | _, _, _, _, @Clause.Replaces.children _ _ _ _ _ _ _ clauses h => by
    cases clauses with
    | nil => exact h.closingFallthrough?
    | cons next clauses =>
      rw [finalFallthrough?_cons _ (List.cons_ne_nil next clauses),
        finalFallthrough?_cons _ (List.cons_ne_nil next clauses)]
  | _, _, _, _, .tail h => by
    obtain ⟨hclauses, hclauses'⟩ := h.ne_nil
    rw [finalFallthrough?_cons _ hclauses, finalFallthrough?_cons _ hclauses',
      h.finalFallthrough?]

end SwitchMarkup

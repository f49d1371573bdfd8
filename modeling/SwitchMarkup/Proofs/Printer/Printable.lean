import SwitchMarkup.Proofs.Grammar.Lines
import SwitchMarkup.Proofs.Template.Placement

/-!
# Printable templates

A template made by hand can hold what no source does: text with a brace in it, a tag that is no
expression, a `fallthrough` that leads nowhere. A printable template holds none of that, and its
text does not begin like a keyword where printing puts it at the start of a line.
-/

namespace SwitchMarkup

open Items

variable {π : Type}

/-- At the start of a line the text would begin a statement or, in a clause, the next clause. -/
def LooksLikeKeyword (inClause : Bool) (value : String) : Prop :=
  OpensStatement value.toList ∨ inClause = true ∧ OpensClause value.toList

/-- Whether a node is an output expression. -/
def Node.isOutput : Node π → Bool
  | .output _ => true
  | .text _ | .fallthrough _ | .switch .. => false

mutual

/-- The node is printable, in a clause or outside of all clauses; `joined` tells whether an output
expression stands directly in front of it. -/
def Node.PrintableIn (inClause joined : Bool) : Node π → Prop
  | .text content =>
    LegalText content.value ∧ (joined = false → ¬LooksLikeKeyword inClause content.value)
  | .output expression => expression.value ≠ "" ∧ Legal .braced expression.value
  | .fallthrough _ => inClause = true
  | .switch tag clauses _ => Legal .tag tag.value ∧ Clause.AllPrintable clauses

/-- The nodes are printable one after the other. -/
def Template.PrintableIn (inClause joined : Bool) : List (Node π) → Prop
  | [] => True
  | node :: nodes =>
    node.PrintableIn inClause joined ∧ Template.PrintableIn inClause node.isOutput nodes

/-- The clauses of a switch are printable: a `fallthrough` is at most the last node of one, and not
of the last one. -/
def Clause.AllPrintable : List (Clause π) → Prop
  | [] => True
  | ⟨header, children⟩ :: clauses =>
    header.Legal ∧ Template.PrintableIn true false children ∧
      (∀ keyword, .fallthrough keyword ∉ children.dropLast) ∧
      (clauses = [] → ∀ keyword, .fallthrough keyword ∉ children) ∧ Clause.AllPrintable clauses

end

/-- The template can be printed and read back. -/
def Template.Printable (t : Template π) : Prop := Template.PrintableIn false false t

mutual

/-- Every `fallthrough` in the node has its keyword for its text. -/
def Node.Spelled : Node π → Prop
  | .text _ => True
  | .output _ => True
  | .fallthrough keyword => keyword.value = "fallthrough"
  | .switch _ clauses _ => Clause.AllSpelled clauses

/-- Every `fallthrough` in the nodes has its keyword for its text. -/
def Template.Spelled : List (Node π) → Prop
  | [] => True
  | node :: nodes => node.Spelled ∧ Template.Spelled nodes

/-- Every `fallthrough` in the clauses has its keyword for its text. -/
def Clause.AllSpelled : List (Clause π) → Prop
  | [] => True
  | ⟨_, children⟩ :: clauses => Template.Spelled children ∧ Clause.AllSpelled clauses

end

/-! ## Printability can be checked -/

instance (value : String) : Decidable (LegalText value) :=
  decidable_of_iff
    (trim value.toList = value.toList ∧ value ≠ "" ∧ IsRun (fun c => !endsText c) value.toList)
    ⟨fun h => ⟨h.1, h.2.1, h.2.2⟩, fun h => ⟨h.trimmed, h.nonempty, h.plain⟩⟩

instance (inClause : Bool) (value : String) : Decidable (LooksLikeKeyword inClause value) :=
  inferInstanceAs (Decidable
    ((Keyword.fallthrough <+: value.toList ∨ Keyword.spaced Keyword.switch <+: value.toList) ∨
      inClause = true ∧
        (Keyword.spaced Keyword.case <+: value.toList ∨ Keyword.default <+: value.toList)))

instance (header : Header π) : Decidable header.Legal :=
  match header with
  | .case list =>
    decidable_of_iff (list.value ≠ "" ∧ Legal .list list.value) (by simp [Header.Legal, Header.list?])
  | .default _ => isTrue nofun

/-- Whether a node is a `fallthrough`. -/
def Node.isFallthrough : Node π → Bool
  | .fallthrough _ => true
  | .text _ | .output _ | .switch .. => false

theorem all_not_isFallthrough_iff {nodes : List (Node π)} :
    nodes.all (!·.isFallthrough) = true ↔ ∀ keyword, .fallthrough keyword ∉ nodes := by
  rw [List.all_eq_true]
  constructor
  · intro h keyword hmem
    cases h _ hmem
  · intro h node hmem
    cases node with
    | fallthrough keyword => exact absurd hmem (h keyword)
    | text | output | switch => rfl

instance (nodes : List (Node π)) : Decidable (∀ keyword, .fallthrough keyword ∉ nodes) :=
  decidable_of_iff _ all_not_isFallthrough_iff

mutual

/-- Whether a node is printable is decided by its kind and its parts. -/
def Node.decPrintableIn (inClause joined : Bool) :
    (node : Node π) → Decidable (node.PrintableIn inClause joined)
  | .text content => inferInstanceAs (Decidable
      (LegalText content.value ∧ (joined = false → ¬LooksLikeKeyword inClause content.value)))
  | .output expression =>
    inferInstanceAs (Decidable (expression.value ≠ "" ∧ Legal .braced expression.value))
  | .fallthrough _ => inferInstanceAs (Decidable (inClause = true))
  | .switch tag clauses _ =>
    have := Clause.decAllPrintable clauses
    inferInstanceAs (Decidable (Legal .tag tag.value ∧ Clause.AllPrintable clauses))

/-- Whether nodes are printable is decided one after the other. -/
def Template.decPrintableIn (inClause joined : Bool) :
    (nodes : List (Node π)) → Decidable (Template.PrintableIn inClause joined nodes)
  | [] => isTrue trivial
  | node :: nodes =>
    have := node.decPrintableIn inClause joined
    have := Template.decPrintableIn inClause node.isOutput nodes
    inferInstanceAs (Decidable
      (node.PrintableIn inClause joined ∧ Template.PrintableIn inClause node.isOutput nodes))

/-- Whether clauses are printable is decided one after the other. -/
def Clause.decAllPrintable : (clauses : List (Clause π)) → Decidable (Clause.AllPrintable clauses)
  | [] => isTrue trivial
  | ⟨header, children⟩ :: clauses =>
    have := Template.decPrintableIn true false children
    have := Clause.decAllPrintable clauses
    have : Decidable (clauses = []) := decidable_of_iff _ List.isEmpty_iff
    inferInstanceAs (Decidable
      (header.Legal ∧ Template.PrintableIn true false children ∧
        (∀ keyword, .fallthrough keyword ∉ children.dropLast) ∧
        (clauses = [] → ∀ keyword, .fallthrough keyword ∉ children) ∧ Clause.AllPrintable clauses))

end

instance (t : Template π) : Decidable t.Printable := Template.decPrintableIn false false t

/-- The last clause of a printable switch does not fall through. -/
theorem Clause.AllPrintable.finalFallthrough? :
    ∀ {clauses : List (Clause π)}, Clause.AllPrintable clauses →
      SwitchMarkup.finalFallthrough? clauses = none
  | [], _ => rfl
  | [⟨_, _⟩], h => by
    obtain ⟨-, -, -, hlast, -⟩ := h
    rw [finalFallthrough?_eq_none_iff]
    rintro clause ⟨rfl⟩ keyword hmem
    exact hlast rfl keyword (List.mem_of_getLast? hmem)
  | ⟨_, _⟩ :: _ :: _, h => by
    obtain ⟨-, -, -, -, hclauses⟩ := h
    have hfinal := Clause.AllPrintable.finalFallthrough? hclauses
    rw [finalFallthrough?_eq_none_iff] at hfinal ⊢
    rw [List.getLast?_cons_cons]
    exact hfinal

end SwitchMarkup

import SwitchMarkup.Proofs.Grammar.Suffix

/-!
# How large a template is

The number of nodes and clauses of a template, at every depth. Each of them takes characters of its
own, a node its first one and a clause its keyword, so that there are no more of them than there are
characters (`ReadsBody.size_le`).
-/

namespace SwitchMarkup

variable {π ρ : Type} {o : Options} {cs rest : List Char} {header : Header (List Char)}
  {tag : Fragment (List Char)}

mutual

/-- The number of nodes and clauses that a node consists of, itself included. -/
def Node.size : Node π → Nat
  | .text _ => 1
  | .output _ => 1
  | .fallthrough _ => 1
  | .switch _ clauses _ => 1 + Clause.size clauses

/-- The number of nodes and clauses of a template. -/
def Template.size : List (Node π) → Nat
  | [] => 0
  | node :: nodes => node.size + Template.size nodes

/-- The number of clauses, and of the nodes and clauses in their bodies. -/
def Clause.size : List (Clause π) → Nat
  | [] => 0
  | ⟨_, children⟩ :: clauses => 1 + Template.size children + Clause.size clauses

end

mutual

theorem Node.size_map (f : π → ρ) : ∀ node : Node π, (node.map f).size = node.size
  | .text _ => rfl
  | .output _ => rfl
  | .fallthrough _ => rfl
  | .switch _ clauses _ => by
    rw [Node.map, Node.size, Node.size, Clause.size_mapAll f clauses]

/-- The size of nodes does not depend on places. -/
theorem Template.size_map (f : π → ρ) :
    ∀ nodes : List (Node π), Template.size (Template.map f nodes) = Template.size nodes
  | [] => rfl
  | node :: nodes => by
    rw [Template.map, Template.size, Template.size, Node.size_map f node,
      Template.size_map f nodes]

theorem Clause.size_mapAll (f : π → ρ) :
    ∀ clauses : List (Clause π), Clause.size (Clause.mapAll f clauses) = Clause.size clauses
  | [] => rfl
  | ⟨_, children⟩ :: clauses => by
    rw [Clause.mapAll, Clause.map, Clause.size, Clause.size, Template.size_map f children,
      Clause.size_mapAll f clauses]

end

/-! ## The characters that a template takes -/

/-- The header of a `switch` has at least one character. -/
theorem ReadsSwitchHeader.length_lt (h : ReadsSwitchHeader cs tag rest) :
    rest.length < cs.length := by
  obtain @⟨gap, run, pad, lineEnd, rest, -, -, -, -, -⟩ := h
  simp only [List.length_append, List.length_cons]
  omega

theorem ReadsClauseHeader.length_lt (h : ReadsClauseHeader cs header rest) :
    rest.length < cs.length := by
  cases h with
  | case =>
    simp only [List.length_append, List.length_cons]
    omega
  | default =>
    simp only [List.length_append, List.length_cons]
    omega

mutual

/-- A node takes as many characters at least as it counts nodes and clauses. -/
theorem ReadsNode.size_le :
    ∀ {depth lineStart cs node rest}, ReadsNode o depth lineStart cs node rest →
      node.size + rest.length ≤ cs.length
  | _, _, _, _, _, .text hcontent _ => by
    obtain @⟨run, rest, hne, -, -, -⟩ := hcontent
    have hpos := List.length_pos_iff.2 hne
    rw [Node.size, List.length_append]
    omega
  | _, _, _, _, _, .output hexpression => by
    obtain @⟨run, rest, -, -⟩ := hexpression
    simp only [Node.size, List.length_append, List.length_cons]
    omega
  | _, _, _, _, _, .fallthrough _ _ hkeyword => by
    obtain @⟨pad, rest, -, -⟩ := hkeyword
    have hpos : 0 < Keyword.fallthrough.length := by decide
    simp only [Node.size, List.length_append]
    omega
  | _, _, _, _, _, .switch _ hheader _ hclauses _ => by
    have hlt := hheader.length_lt
    have hle := hclauses.size_le
    rw [Node.size]
    omega

/-- The nodes of a body are no more than the characters that they are read from. -/
theorem ReadsBody.size_le :
    ∀ {depth lineStart cs nodes rest}, ReadsBody o depth lineStart cs nodes rest →
      Template.size nodes + rest.length ≤ cs.length
  | _, _, _, _, _, @ReadsBody.done _ _ _ gap rest _ _ => by
    rw [Template.size, Nat.zero_add, List.length_append]
    exact Nat.le_add_left ..
  | _, _, _, _, _, .node _ _ hnode hnodes => by
    have hnode := hnode.size_le
    have hnodes := hnodes.size_le
    rw [Template.size, List.length_append]
    omega

theorem ReadsClauses.size_le :
    ∀ {depth cs clauses rest}, ReadsClauses o depth cs clauses rest →
      Clause.size clauses + rest.length ≤ cs.length
  | _, _, _, _, .done _ => by
    rw [Clause.size, Nat.zero_add, List.length_append, List.length_cons]
    omega
  | _, _, _, _, .clause _ hheader hbody _ hclauses => by
    have hheader := hheader.length_lt
    have hbody := hbody.size_le
    have hclauses := hclauses.size_le
    rw [Clause.size, List.length_append]
    omega

end

end SwitchMarkup

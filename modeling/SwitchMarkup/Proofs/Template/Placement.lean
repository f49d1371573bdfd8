import SwitchMarkup.Template.Placement

/-!
# What the checks of placement rule out

The two checks look for a place, and what they say of a template is that there is none: no
`fallthrough` among the nodes in front of the last, and none that is the last node of the last
clause.
-/

namespace SwitchMarkup

variable {π : Type} {nodes : List (Node π)} {clauses : List (Clause π)}

/-- No `fallthrough` is early just where all that there are come last. -/
theorem earlyFallthrough?_eq_none_iff :
    earlyFallthrough? nodes = none ↔ ∀ keyword, .fallthrough keyword ∉ nodes.dropLast := by
  induction nodes with
  | nil => simp [earlyFallthrough?]
  | cons node nodes ih =>
    cases nodes with
    | nil => cases node <;> simp [earlyFallthrough?]
    | cons next nodes =>
      rw [List.dropLast_cons_cons]
      cases node with
      | fallthrough keyword => exact iff_of_false nofun fun h => h keyword List.mem_cons_self
      | text | output | switch => simpa [earlyFallthrough?] using ih

/-- So a `fallthrough` is the last of the nodes and the only one. -/
theorem exists_append_of_earlyFallthrough? {keyword : Fragment π}
    (hearly : earlyFallthrough? nodes = none) (h : .fallthrough keyword ∈ nodes) :
    ∃ others, nodes = others ++ [.fallthrough keyword] ∧ ∀ other, .fallthrough other ∉ others := by
  rw [earlyFallthrough?_eq_none_iff] at hearly
  have hne : nodes ≠ [] := List.ne_nil_of_mem h
  have hcut := List.dropLast_concat_getLast hne
  rw [← hcut, List.mem_append, List.mem_singleton] at h
  have hlast := h.resolve_left (hearly keyword)
  exact ⟨nodes.dropLast, by rw [hlast, hcut], hearly⟩

/-- What the check of a clause finds is one of its fallthroughs. -/
theorem exists_of_earlyFallthrough? {place : π} (h : earlyFallthrough? nodes = some place) :
    ∃ keyword, .fallthrough keyword ∈ nodes ∧ keyword.span.start = place := by
  fun_induction earlyFallthrough? nodes with
  | case1 keyword next nodes =>
    cases h
    exact ⟨keyword, List.mem_cons_self, rfl⟩
  | case2 node nodes hnode ih =>
    obtain ⟨keyword, hmem, hplace⟩ := ih h
    exact ⟨keyword, List.mem_cons_of_mem node hmem, hplace⟩
  | case3 => cases h

theorem exists_of_closingFallthrough? {place : π} (h : closingFallthrough? nodes = some place) :
    ∃ keyword, .fallthrough keyword ∈ nodes ∧ keyword.span.start = place := by
  unfold closingFallthrough? at h
  split at h
  next keyword hlast =>
    cases h
    exact ⟨keyword, List.mem_of_getLast? hlast, rfl⟩
  next => cases h

/-- What the check of a switch finds is a `fallthrough` in one of its clauses. -/
theorem exists_of_finalFallthrough? {place : π} (h : finalFallthrough? clauses = some place) :
    ∃ clause ∈ clauses, ∃ keyword, .fallthrough keyword ∈ clause.children ∧
      keyword.span.start = place := by
  obtain ⟨clause, hlast, hclosing⟩ := Option.bind_eq_some_iff.1 h
  exact ⟨clause, List.mem_of_getLast? hlast, exists_of_closingFallthrough? hclosing⟩

theorem closingFallthrough?_eq_none_iff :
    closingFallthrough? nodes = none ↔ ∀ keyword, .fallthrough keyword ∉ nodes.getLast? := by
  rw [closingFallthrough?]
  cases nodes.getLast? with
  | none => simp
  | some node => cases node <;> simp

theorem finalFallthrough?_eq_none_iff :
    finalFallthrough? clauses = none ↔
      ∀ clause ∈ clauses.getLast?, ∀ keyword, .fallthrough keyword ∉ clause.children.getLast? := by
  rw [finalFallthrough?]
  cases clauses.getLast? with
  | none => simp
  | some clause => simp [closingFallthrough?_eq_none_iff]

theorem finalFallthrough?_of_cons {clause : Clause π}
    (h : finalFallthrough? (clause :: clauses) = none) : finalFallthrough? clauses = none := by
  cases clauses with
  | nil => rfl
  | cons next clauses =>
    rw [finalFallthrough?, List.getLast?_cons_cons] at h
    exact h

end SwitchMarkup

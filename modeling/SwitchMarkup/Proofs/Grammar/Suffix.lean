import SwitchMarkup.Proofs.Grammar.Basic

/-!
# What stands behind a construct is the end of its text

Every derivation reads from the front: the text behind a construct is a suffix of the text in front
of it. So all the places of a derivation are places of its source.
-/

namespace SwitchMarkup

variable {o : Options} {cs rest : List Char} {piece : Fragment (List Char)}
  {header : Header (List Char)}

/-! ## Constructs -/

theorem ReadsText.suffix (h : ReadsText cs piece rest) : rest <:+ cs := by
  obtain @⟨run, rest, -, -, -, -⟩ := h
  exact List.suffix_append run rest

theorem ReadsOutput.suffix (h : ReadsOutput cs piece rest) : rest <:+ cs := by
  obtain @⟨run, rest, -, -⟩ := h
  exact ⟨'\x7b' :: (run ++ ['\x7d']), by simp⟩

theorem ReadsFallthrough.suffix (h : ReadsFallthrough cs piece rest) : rest <:+ cs := by
  obtain @⟨pad, rest, -, -⟩ := h
  exact ⟨Keyword.fallthrough ++ pad, by simp⟩

theorem ReadsSwitchHeader.suffix (h : ReadsSwitchHeader cs piece rest) : rest <:+ cs := by
  obtain @⟨gap, run, pad, lineEnd, rest, -, -, -, -, -⟩ := h
  exact ⟨Keyword.spaced Keyword.switch ++ (gap ++ (run ++ '\x7b' :: (pad ++ lineEnd))), by simp⟩

theorem ReadsClauseHeader.suffix (h : ReadsClauseHeader cs header rest) : rest <:+ cs := by
  cases h with
  | @case gap run rest =>
    exact ⟨Keyword.spaced Keyword.case ++ (gap ++ (run ++ [':'])), by simp⟩
  | @default pad rest => exact ⟨Keyword.default ++ (pad ++ [':']), by simp⟩

/-! ## Nodes, bodies and clauses -/

mutual

/-- What follows a node is an end of what was read from. -/
theorem ReadsNode.suffix :
    ∀ {depth lineStart cs node rest}, ReadsNode o depth lineStart cs node rest → rest <:+ cs
  | _, _, _, _, _, .text hcontent _ => hcontent.suffix
  | _, _, _, _, _, .output hexpression => hexpression.suffix
  | _, _, _, _, _, .fallthrough _ _ hkeyword => hkeyword.suffix
  | _, _, _, _, _, .switch _ hheader _ hclauses _ => hclauses.suffix.trans hheader.suffix

/-- What follows a body is an end of what was read from. -/
theorem ReadsBody.suffix :
    ∀ {depth lineStart cs nodes rest}, ReadsBody o depth lineStart cs nodes rest → rest <:+ cs
  | _, _, _, _, _, .done _ _ => List.suffix_append ..
  | _, _, _, _, _, .node _ _ hnode hnodes =>
    (hnodes.suffix.trans hnode.suffix).trans (List.suffix_append ..)

theorem ReadsClauses.suffix :
    ∀ {depth cs clauses rest}, ReadsClauses o depth cs clauses rest → rest <:+ cs
  | _, _, _, _, .done _ => (List.suffix_cons ..).trans (List.suffix_append ..)
  | _, _, _, _, .clause _ hheader hbody _ hclauses =>
    ((hclauses.suffix.trans hbody.suffix).trans hheader.suffix).trans (List.suffix_append ..)

end

/-- The header and the body of a clause are both read from the end of the text, the body behind the
header. -/
theorem ReadsClauses.exists_clause :
    ∀ {depth cs clauses rest}, ReadsClauses o depth cs clauses rest → ∀ clause ∈ clauses,
      ∃ ds mid stop, ds <:+ cs ∧ ReadsClauseHeader ds clause.header mid ∧
        ReadsBody o (depth + 1) true mid clause.children stop
  | _, _, _, _, .clause _ hheader hbody _ hclauses, c, hmem => by
    rcases List.mem_cons.1 hmem with rfl | hmem
    · exact ⟨_, _, _, List.suffix_append .., hheader, hbody⟩
    · obtain ⟨ds, mid, stop, hds, hread⟩ := hclauses.exists_clause c hmem
      have hstop := hbody.suffix.trans hheader.suffix
      exact ⟨ds, mid, stop, (hds.trans hstop).trans (List.suffix_append ..), hread⟩

end SwitchMarkup

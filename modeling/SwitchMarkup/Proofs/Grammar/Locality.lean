import SwitchMarkup.Proofs.Grammar.Basic

/-!
# How far a construct looks ahead

A construct is over when it has been read. Of the text behind it a derivation sees only which
character comes next and whether a clause header begins there, so two texts that agree in this are
`Alike`, and either may stand behind the construct. Main statement: `ReadsNode.relocate`.
-/

namespace SwitchMarkup

variable {p : Char → Bool} {o : Options} {depth : Nat} {lineStart : Bool} {c : Char}
  {gap cs ds rest rest' : List Char} {piece : Fragment (List Char)} {header : Header (List Char)}
  {node : Node (List Char)}

/-- The texts begin with the same character, and a clause header begins both or neither. -/
structure Alike (cs ds : List Char) : Prop where
  head : cs.head? = ds.head?
  opens : OpensClause cs ↔ OpensClause ds

/-! ## Texts that are alike -/

theorem Alike.stops (h : Alike cs ds) (hcs : Stops p cs) : Stops p ds := by
  rw [Stops, ← h.head]
  exact hcs

theorem Alike.endsLine (h : Alike cs ds) (hcs : EndsLine cs) : EndsLine ds := by
  rw [EndsLine, ← h.head]
  exact hcs

theorem singleton_prefix_iff : [c] <+: cs ↔ cs.head? = some c := by
  cases cs with
  | nil => simp
  | cons d cs => simp [List.cons_prefix_cons, eq_comm]

/-- Of texts that begin alike both end a body, or neither does. -/
theorem Alike.endsBody_iff (h : Alike cs ds) :
    EndsBody depth lineStart cs ↔ EndsBody depth lineStart ds := by
  rw [EndsBody, EndsBody, singleton_prefix_iff, singleton_prefix_iff, h.head, h.opens,
    ← List.head?_eq_none_iff, ← List.head?_eq_none_iff, h.head]

/-- Texts with the same first character begin alike if no clause begins with it. -/
theorem alike_cons (hcase : c ≠ 'c') (hdefault : c ≠ 'd') (cs ds : List Char) :
    Alike (c :: cs) (c :: ds) := by
  have hnone : ∀ rest, ¬OpensClause (c :: rest) := by
    intro rest hopens
    rcases hopens.head with h | h
    · exact hcase h
    · exact hdefault h
  exact ⟨rfl, iff_of_false (hnone cs) (hnone ds)⟩

/-- Texts that both begin with a clause, and with the same letter, begin alike. -/
theorem alike_of_opens (hhead : cs.head? = ds.head?) (hcs : OpensClause cs) (hds : OpensClause ds) :
    Alike cs ds :=
  ⟨hhead, iff_of_true hcs hds⟩

/-- No clause header begins with white space. -/
theorem Alike.behind_gap (h : Alike cs ds) (hgap : IsRun isWhiteSpace gap) :
    Alike (gap ++ cs) (gap ++ ds) := by
  cases gap with
  | nil => exact h
  | cons c gap =>
    have hc : isWhiteSpace c = true := (isRun_cons.1 hgap).1
    have hnone : ∀ rest, ¬OpensClause (c :: rest) := by
      intro rest hopens
      cases hc.symm.trans (stops_cons.1 hopens.stops)
    exact ⟨rfl, iff_of_false (hnone _) (hnone _)⟩

/-! ## Constructs -/

theorem head?_append_of_ne_nil (h : cs ≠ []) (rest rest' : List Char) :
    (cs ++ rest).head? = (cs ++ rest').head? := by
  obtain ⟨c, cs, rfl⟩ := List.exists_cons_of_ne_nil h
  rfl

theorem ReadsText.relocate (h : ReadsText cs piece rest) :
    ∃ front, cs = front ++ rest ∧ ∀ rest', Alike rest rest' →
      Alike cs (front ++ rest') ∧ (OpensStatement (front ++ rest') ↔ OpensStatement cs) ∧
        ∃ piece', ReadsText (front ++ rest') piece' rest' ∧ piece'.value = piece.value := by
  obtain @⟨run, rest, hne, hstart, hrun, hrest⟩ := h
  refine ⟨run, rfl, fun rest' halike => ?_⟩
  have hrest' := halike.stops hrest
  refine ⟨⟨head?_append_of_ne_nil hne rest rest', ?_⟩, ?_, _, .mk hne hstart hrun hrest', rfl⟩
  · rw [opensClause_append_iff hrest, opensClause_append_iff hrest']
  · rw [opensStatement_append_iff hrest, opensStatement_append_iff hrest']

theorem ReadsOutput.relocate (h : ReadsOutput cs piece rest) :
    ∃ front, cs = front ++ rest ∧ ∀ rest', Alike cs (front ++ rest') ∧
      ∃ piece', ReadsOutput (front ++ rest') piece' rest' ∧ piece'.value = piece.value := by
  obtain @⟨run, rest, hrun, hvalue⟩ := h
  refine ⟨'\x7b' :: (run ++ ['\x7d']), by simp, fun rest' => ?_⟩
  have htext : '\x7b' :: (run ++ ['\x7d']) ++ rest' = '\x7b' :: (run ++ '\x7d' :: rest') := by simp
  rw [htext]
  exact ⟨alike_cons (by decide) (by decide) _ _, _, .mk hrun hvalue, rfl⟩

theorem ReadsFallthrough.relocate (h : ReadsFallthrough cs piece rest) :
    ∃ front, cs = front ++ rest ∧ ∀ rest', Alike rest rest' → Alike cs (front ++ rest') ∧
      ∃ piece', ReadsFallthrough (front ++ rest') piece' rest' ∧ piece'.value = piece.value := by
  obtain @⟨pad, rest, hpad, hrest⟩ := h
  refine ⟨Keyword.fallthrough ++ pad, (List.append_assoc ..).symm, fun rest' halike => ?_⟩
  rw [List.append_assoc]
  exact ⟨alike_cons (by decide) (by decide) _ _, _, .mk hpad (halike.endsLine hrest), rfl⟩

theorem ReadsSwitchHeader.relocate (h : ReadsSwitchHeader cs piece rest) :
    ∃ front, cs = front ++ rest ∧ ∀ rest', Alike cs (front ++ rest') ∧
      ∃ piece', ReadsSwitchHeader (front ++ rest') piece' rest' ∧ piece'.value = piece.value := by
  obtain @⟨gap, run, pad, lineEnd, rest, hgap, hstart, hrun, hpad, hend⟩ := h
  have htext : ∀ rest, Keyword.spaced Keyword.switch ++
      (gap ++ (run ++ '\x7b' :: (pad ++ lineEnd))) ++ rest =
        Keyword.spaced Keyword.switch ++
          (gap ++ (run ++ '\x7b' :: (pad ++ (lineEnd ++ rest)))) := by
    intro rest
    simp
  refine ⟨_, (htext rest).symm, fun rest' => ?_⟩
  rw [htext]
  exact ⟨alike_cons (by decide) (by decide) _ _, _, .mk hgap hstart hrun hpad hend, rfl⟩

/-- The header of a clause is read as before in front of any other rest. -/
theorem ReadsClauseHeader.relocate (h : ReadsClauseHeader cs header rest) :
    ∃ front, cs = front ++ rest ∧ ∀ rest', Alike cs (front ++ rest') ∧
      ∃ header', ReadsClauseHeader (front ++ rest') header' rest' ∧
        header'.map (fun _ => ()) = header.map fun _ => () := by
  have hopens := h.opensClause
  cases h with
  | @case gap run rest hgap hne hstart hrun =>
    have htext : ∀ rest, Keyword.spaced Keyword.case ++ (gap ++ (run ++ [':'])) ++ rest =
        Keyword.spaced Keyword.case ++ (gap ++ (run ++ ':' :: rest)) := by
      intro rest
      simp
    refine ⟨_, (htext rest).symm, fun rest' => ?_⟩
    rw [htext]
    have hread : ReadsClauseHeader _ _ rest' := .case hgap hne hstart hrun
    exact ⟨alike_of_opens rfl hopens hread.opensClause, _, hread, rfl⟩
  | @default pad rest hpad =>
    have htext : ∀ rest, Keyword.default ++ (pad ++ [':']) ++ rest =
        Keyword.default ++ (pad ++ ':' :: rest) := by
      intro rest
      simp
    refine ⟨_, (htext rest).symm, fun rest' => ?_⟩
    rw [htext]
    have hread : ReadsClauseHeader _ _ rest' := .default hpad
    exact ⟨alike_of_opens rfl hopens hread.opensClause, _, hread, rfl⟩

/-! ## Misplaced fallthroughs -/

/-- A check that finds nothing in one place finds nothing in another one where the same is
misplaced. -/
theorem Options.enforced_eq_none_of_iff {π ρ : Type} {misplaced : Option π} {misplaced' : Option ρ}
    (h : misplaced' = none ↔ misplaced = none) (hnone : o.enforced misplaced = none) :
    o.enforced misplaced' = none := by
  rw [Options.enforced_eq_none_iff] at hnone ⊢
  exact fun hplacement => h.2 (hnone hplacement)

/-! ## Nodes, bodies and clauses -/

mutual

/-- Behind a node may stand any text that is like the one that stood there. -/
theorem ReadsNode.relocate :
    ∀ {depth lineStart cs node rest}, ReadsNode o depth lineStart cs node rest →
      ∃ front, cs = front ++ rest ∧ ∀ rest', Alike rest rest' → Alike cs (front ++ rest') ∧
        ∃ node', ReadsNode o depth lineStart (front ++ rest') node' rest' ∧
          node'.map (fun _ => ()) = node.map fun _ => ()
  | _, _, _, _, _, .text hcontent hkeyword => by
    obtain ⟨front, rfl, hmove⟩ := hcontent.relocate
    refine ⟨front, rfl, fun rest' halike => ?_⟩
    obtain ⟨hfront, hopens, content', hcontent', hvalue⟩ := hmove rest' halike
    exact ⟨hfront, _, .text hcontent' fun hline => mt hopens.1 (hkeyword hline),
      congrArg Node.text (Fragment.shape_eq hvalue)⟩
  | _, _, _, _, _, .output hexpression => by
    obtain ⟨front, rfl, hmove⟩ := hexpression.relocate
    refine ⟨front, rfl, fun rest' _ => ?_⟩
    obtain ⟨hfront, expression', hexpression', hvalue⟩ := hmove rest'
    exact ⟨hfront, _, .output hexpression', congrArg Node.output (Fragment.shape_eq hvalue)⟩
  | _, _, _, _, _, .fallthrough hline hdepth hkeyword => by
    obtain ⟨front, rfl, hmove⟩ := hkeyword.relocate
    refine ⟨front, rfl, fun rest' halike => ?_⟩
    obtain ⟨hfront, keyword', hkeyword', hvalue⟩ := hmove rest' halike
    exact ⟨hfront, _, .fallthrough hline hdepth hkeyword',
      congrArg Node.fallthrough (Fragment.shape_eq hvalue)⟩
  | _, _, _, _, _, .switch hline hheader hlimit hclauses hfinal => by
    obtain ⟨front, rfl, hmoveHeader⟩ := hheader.relocate
    obtain ⟨inner, rfl, hmove⟩ := hclauses.relocate
    refine ⟨front ++ inner, (List.append_assoc ..).symm, fun rest' halike => ?_⟩
    rw [List.append_assoc]
    obtain ⟨-, clauses', hclauses', hshape⟩ := hmove rest'
    obtain ⟨hfront, tag', htag', hvalue⟩ := hmoveHeader (inner ++ rest')
    have hfinal' : o.enforced (finalFallthrough? clauses') = none :=
      Options.enforced_eq_none_of_iff (finalFallthrough?_eq_none_of_shape hshape) hfinal
    exact ⟨hfront, _, .switch hline htag' hlimit hclauses' hfinal',
      Node.shape_switch_eq hvalue hshape⟩

/-- The body of a clause is read as before in front of another rest that begins alike. -/
theorem ReadsBody.relocate :
    ∀ {depth lineStart cs nodes rest}, ReadsBody o depth lineStart cs nodes rest →
      ∃ front, cs = front ++ rest ∧ ∀ rest', Alike rest rest' → Alike cs (front ++ rest') ∧
        ∃ nodes', ReadsBody o depth lineStart (front ++ rest') nodes' rest' ∧
          Template.shape nodes' = Template.shape nodes
  | _, _, _, _, _, @ReadsBody.done _ _ _ gap _ hgap hend =>
    ⟨gap, rfl, fun _ halike =>
      ⟨halike.behind_gap hgap, [], .done hgap (halike.endsBody_iff.1 hend), rfl⟩⟩
  | _, _, _, _, _, @ReadsBody.node _ _ _ gap _ _ _ _ _ hgap hmore hnode hnodes => by
    obtain ⟨front, rfl, hmoveNode⟩ := hnode.relocate
    obtain ⟨inner, rfl, hmove⟩ := hnodes.relocate
    refine ⟨gap ++ (front ++ inner), by simp only [List.append_assoc], fun rest' halike => ?_⟩
    simp only [List.append_assoc]
    obtain ⟨hinner, nodes', hnodes', hshape⟩ := hmove rest' halike
    obtain ⟨hfront, node', hnode', hnodeShape⟩ := hmoveNode (inner ++ rest') hinner
    exact ⟨hfront.behind_gap hgap, node' :: nodes',
      .node hgap (mt hfront.endsBody_iff.2 hmore) hnode' hnodes',
      Template.shape_cons_eq hnodeShape hshape⟩

/-- The clauses of a block are read as before in front of any other rest. -/
theorem ReadsClauses.relocate :
    ∀ {depth cs clauses rest}, ReadsClauses o depth cs clauses rest →
      ∃ front, cs = front ++ rest ∧ ∀ rest', Alike cs (front ++ rest') ∧
        ∃ clauses', ReadsClauses o depth (front ++ rest') clauses' rest' ∧
          Clause.mapAll (fun _ => ()) clauses' = Clause.mapAll (fun _ => ()) clauses
  | _, _, _, _, @ReadsClauses.done _ _ gap _ hgap => by
    refine ⟨gap ++ ['\x7d'], List.append_cons .., fun rest' => ?_⟩
    rw [← List.append_cons]
    exact ⟨(alike_cons (by decide) (by decide) _ _).behind_gap hgap, [], .done hgap, rfl⟩
  | _, _, _, _, @ReadsClauses.clause _ _ gap _ _ _ _ _ _ _ hgap hheader hbody hearly hclauses => by
    obtain ⟨front, rfl, hmoveHeader⟩ := hheader.relocate
    obtain ⟨middle, rfl, hmoveBody⟩ := hbody.relocate
    obtain ⟨inner, rfl, hmove⟩ := hclauses.relocate
    refine ⟨gap ++ (front ++ (middle ++ inner)), by simp only [List.append_assoc], fun rest' => ?_⟩
    simp only [List.append_assoc]
    obtain ⟨hinner, clauses', hclauses', hshape⟩ := hmove rest'
    obtain ⟨-, children', hchildren', hbodyShape⟩ := hmoveBody (inner ++ rest') hinner
    obtain ⟨hfront, header', hheader', hheaderShape⟩ := hmoveHeader (middle ++ (inner ++ rest'))
    have hearly' : o.enforced (earlyFallthrough? children') = none :=
      Options.enforced_eq_none_of_iff (earlyFallthrough?_eq_none_of_shape hbodyShape) hearly
    exact ⟨hfront.behind_gap hgap, ⟨header', children'⟩ :: clauses',
      .clause hgap hheader' hchildren' hearly' hclauses',
      Clause.shape_cons_eq hheaderShape hbodyShape hshape⟩

end

end SwitchMarkup

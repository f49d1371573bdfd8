import SwitchMarkup.Proofs.Grammar.Basic

/-!
# Derivations in front of a further line

No construct looks past the end of its line, so a derivation stays one when a line feed and more
text are put behind its text; only its places change with that. Nor does a derivation depend on how
many switches are open around it, as long as no limit counts them. So the body that makes up a
whole source can be read in front of other lines and inside of a clause, where it goes on with what
those lines hold. Main statement: `ReadsBody.append_body`.
-/

namespace SwitchMarkup

variable {o : Options} {depth depth' : Nat} {lineStart : Bool} {cs mid rest : List Char}
  {piece : Fragment (List Char)} {header : Header (List Char)} {node : Node (List Char)}
  {nodes more : List (Node (List Char))}

/-! ## Constructs -/

theorem ReadsText.append (h : ReadsText cs piece rest) (ds : List Char) :
    ReadsText (cs ++ '\n' :: ds) (piece.map (· ++ '\n' :: ds)) (rest ++ '\n' :: ds) := by
  obtain @⟨run, rest, hne, hstart, hrun, hrest⟩ := h
  rw [List.append_assoc, Fragment.ofRun_map_append]
  exact .mk hne hstart hrun (hrest.append_cons (by decide) ds)

theorem ReadsOutput.append (h : ReadsOutput cs piece rest) (ds : List Char) :
    ReadsOutput (cs ++ ds) (piece.map (· ++ ds)) (rest ++ ds) := by
  obtain @⟨run, rest, hrun, hvalue⟩ := h
  rw [Fragment.ofRun_map_append, List.cons_append, List.append_assoc, List.cons_append]
  exact .mk hrun hvalue

theorem EndsLine.append (h : EndsLine rest) (ds : List Char) : EndsLine (rest ++ '\n' :: ds) := by
  cases rest with
  | nil =>
    rintro c ⟨rfl⟩
    rfl
  | cons d rest =>
    rintro c ⟨rfl⟩
    exact h d rfl

theorem ReadsFallthrough.append (h : ReadsFallthrough cs piece rest) (ds : List Char) :
    ReadsFallthrough (cs ++ '\n' :: ds) (piece.map (· ++ '\n' :: ds)) (rest ++ '\n' :: ds) := by
  obtain @⟨pad, rest, hpad, hrest⟩ := h
  rw [Fragment.ofRun_map_append, List.append_assoc, List.append_assoc]
  exact .mk hpad (hrest.append ds)

theorem ReadsSwitchHeader.append (h : ReadsSwitchHeader cs piece rest) (ds : List Char) :
    ReadsSwitchHeader (cs ++ ds) (piece.map (· ++ ds)) (rest ++ ds) := by
  obtain @⟨gap, run, pad, lineEnd, rest, hgap, hstart, hrun, hpad, hend⟩ := h
  rw [Fragment.ofRun_map_append]
  simp only [List.append_assoc, List.cons_append]
  exact .mk hgap hstart hrun hpad hend

theorem ReadsClauseHeader.append (h : ReadsClauseHeader cs header rest) (ds : List Char) :
    ReadsClauseHeader (cs ++ ds) (header.map (· ++ ds)) (rest ++ ds) := by
  cases h with
  | case hgap hne hstart hrun =>
    rw [Header.map, Fragment.ofRun_map_append]
    simp only [List.append_assoc, List.cons_append]
    exact .case hgap hne hstart hrun
  | default hpad =>
    rw [Header.map, Span.map]
    simp only [List.append_assoc, List.cons_append]
    exact .default hpad

/-! ## Keywords and the ends of bodies -/

theorem stops_newline (ds : List Char) : Stops (fun c => !endsText c) ('\n' :: ds) :=
  stops_cons.2 rfl

theorem closes_append_iff (ds : List Char) :
    ['\x7d'] <+: cs ++ '\n' :: ds ↔ ['\x7d'] <+: cs :=
  prefix_append_cons_iff (by decide)

/-- The body of a clause ends where it did if a line is added to the source. -/
theorem endsBody_append_iff (hdepth : depth ≠ 0) (hdepth' : depth' ≠ 0) (ds : List Char) :
    EndsBody depth' lineStart (cs ++ '\n' :: ds) ↔ EndsBody depth lineStart cs := by
  rw [EndsBody, EndsBody, if_neg hdepth, if_neg hdepth', closes_append_iff,
    opensClause_append_iff (stops_newline ds)]

/-- At a place where a clause header would be read, a node can only be text that looks like one. -/
theorem ReadsNode.exists_text_of_opensClause (h : ReadsNode o depth lineStart cs node rest)
    (hopens : OpensClause cs) :
    ∃ content, node = .text content ∧
      (Keyword.case <+: content.value.toList ∨ Keyword.default <+: content.value.toList) := by
  cases h with
  | text hcontent _ =>
    obtain @⟨run, rest, -, hstart, -, hrest⟩ := hcontent
    refine ⟨_, rfl, ?_⟩
    rw [Fragment.value_ofRun, String.toList_ofList, trim_eq_trimEnd hstart]
    have hrun : OpensClause run := (opensClause_append_iff hrest).1 hopens
    rcases hrun with h | h
    · have hword : Keyword.case <+: run := (List.prefix_append Keyword.case [' ']).trans h
      exact .inl (prefix_trimEnd (stops_cons.2 (by decide)) hword)
    · exact .inr (prefix_trimEnd (stops_cons.2 (by decide)) h)
  | output hexpression =>
    obtain @⟨run, rest, -, -⟩ := hexpression
    exact absurd hopens.head (by decide)
  | fallthrough _ _ hkeyword =>
    obtain @⟨pad, rest, -, -⟩ := hkeyword
    exact absurd (OpensClause.head (d := 'f') hopens) (by decide)
  | switch _ hheader _ _ _ =>
    obtain @⟨gap, run, pad, lineEnd, rest, -, -, -, -, -⟩ := hheader
    exact absurd (OpensClause.head (d := 's') hopens) (by decide)

/-! ## Nodes, bodies and clauses -/

/-- A limit that is not reached is not reached elsewhere, at the same depth or if there is none. -/
theorem limitReached?_eq_none (hlimit : depth' = depth ∨ o.maxDepth = none)
    (h : o.limitReached? depth = none) : o.limitReached? depth' = none := by
  rcases hlimit with rfl | hnone
  · exact h
  · rw [Options.limitReached?, hnone]
    rfl

mutual

/-- A node is read as before if a line is added to the source. Its depth may change if there is no
limit. -/
theorem ReadsNode.append (ds : List Char) :
    ∀ {depth depth' lineStart cs node rest}, (depth' = depth ∨ o.maxDepth = none) →
      (depth ≠ 0 → depth' ≠ 0) → ReadsNode o depth lineStart cs node rest →
      ReadsNode o depth' lineStart (cs ++ '\n' :: ds) (node.map (· ++ '\n' :: ds))
        (rest ++ '\n' :: ds)
  | _, _, _, _, _, _, _, _, .text hcontent hkeyword =>
    .text (hcontent.append ds) fun hline => mt (opensStatement_append_iff (stops_newline ds)).1 (hkeyword hline)
  | _, _, _, _, _, _, _, _, .output hexpression => .output (hexpression.append _)
  | _, _, _, _, _, _, _, hdepth, .fallthrough hline hclause hkeyword =>
    .fallthrough hline (hdepth hclause) (hkeyword.append ds)
  | _, _, _, _, _, _, hlimit, _, .switch hline hheader hreached hclauses hfinal => by
    refine .switch hline (hheader.append _) (limitReached?_eq_none hlimit hreached)
      (hclauses.append ds hlimit) ?_
    rw [finalFallthrough?_map, Options.enforced_map_eq_none_iff]
    exact hfinal

/-- The body of a clause is read as before if a line is added to the source. -/
theorem ReadsBody.append (ds : List Char) :
    ∀ {depth depth' lineStart cs nodes rest}, (depth' = depth ∨ o.maxDepth = none) →
      depth ≠ 0 → depth' ≠ 0 → ReadsBody o depth lineStart cs nodes rest →
      ReadsBody o depth' lineStart (cs ++ '\n' :: ds) (Template.map (· ++ '\n' :: ds) nodes)
        (rest ++ '\n' :: ds)
  | _, _, _, _, _, _, _, hdepth, hdepth', .done hgap hend => by
    rw [List.append_assoc]
    exact .done hgap ((endsBody_append_iff hdepth hdepth' ds).2 hend)
  | _, _, _, _, _, _, hlimit, hdepth, hdepth', .node hgap hmore hnode hnodes => by
    rw [List.append_assoc]
    exact .node hgap (mt (endsBody_append_iff hdepth hdepth' ds).1 hmore)
      (hnode.append ds hlimit fun _ => hdepth') (hnodes.append ds hlimit hdepth hdepth')

/-- The clauses of a block are read as before if a line is added to the source. -/
theorem ReadsClauses.append (ds : List Char) :
    ∀ {depth depth' cs clauses rest}, (depth' = depth ∨ o.maxDepth = none) →
      ReadsClauses o depth cs clauses rest →
      ReadsClauses o depth' (cs ++ '\n' :: ds) (Clause.mapAll (· ++ '\n' :: ds) clauses)
        (rest ++ '\n' :: ds)
  | _, _, _, _, _, _, .done hgap => by
    rw [List.append_assoc, List.cons_append]
    exact .done hgap
  | _, _, _, _, _, hlimit, .clause hgap hheader hbody hearly hclauses => by
    rw [List.append_assoc]
    refine .clause hgap (hheader.append _)
      (hbody.append ds (hlimit.imp_left (congrArg (· + 1))) (Nat.succ_ne_zero _)
        (Nat.succ_ne_zero _)) ?_ (hclauses.append ds hlimit)
    rw [earlyFallthrough?_map, Options.enforced_map_eq_none_iff]
    exact hearly

end

/-- A whole source as the beginning of a body: it goes on with what the next lines hold. In a
clause, its text must not look like the header of the next one. -/
theorem ReadsBody.append_body {ds : List Char} (hlimit : depth' = 0 ∨ o.maxDepth = none)
    (hmore : ReadsBody o depth' true ds more rest) :
    ∀ {lineStart cs nodes}, ReadsBody o 0 lineStart cs nodes [] →
      (depth' ≠ 0 → ∀ content, .text content ∈ nodes →
        ¬Keyword.case <+: content.value.toList ∧ ¬Keyword.default <+: content.value.toList) →
      ReadsBody o depth' lineStart (cs ++ '\n' :: ds)
        (Template.map (· ++ '\n' :: ds) nodes ++ more) rest
  | _, _, _, .done hgap hend, _ => by
    rw [List.append_assoc, endsBody_zero_iff.1 hend, List.nil_append, Template.map_nil,
      List.nil_append, readsBody_gap_iff hgap, readsBody_newline_iff]
    exact hmore
  | _, _, _, .node hgap _ hnode hnodes, hkeyword => by
    rw [List.append_assoc]
    refine .node hgap ?_ (hnode.append ds hlimit (absurd rfl))
      (ReadsBody.append_body hlimit hmore hnodes fun hclause content hmem =>
        hkeyword hclause content (List.mem_cons_of_mem _ hmem))
    rw [EndsBody]
    split
    · exact fun hnil => hnode.ne_nil (List.append_eq_nil_iff.1 hnil).1
    next hclause =>
      rw [closes_append_iff, opensClause_append_iff (stops_newline ds)]
      rintro (hcloses | ⟨-, hopens⟩)
      · exact hnode.not_closes hcloses
      · obtain ⟨content, hcontent, hlooks⟩ := hnode.exists_text_of_opensClause hopens
        have hnot := hkeyword hclause content (hcontent ▸ List.mem_cons_self)
        rcases hlooks with hcase | hdefault
        · exact hnot.1 hcase
        · exact hnot.2 hdefault

end SwitchMarkup

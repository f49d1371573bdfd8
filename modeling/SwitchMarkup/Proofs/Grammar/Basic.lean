import SwitchMarkup.Proofs.Grammar.Constructs
import SwitchMarkup.Proofs.Template.Map

/-!
# The grammar of templates

Which texts hold which nodes, as derivations: `ReadsNode`, `ReadsBody` and `ReadsClauses` relate a
text to what it begins with and to the text behind that. A derivation nests as the template does,
where a parse keeps a list of open switches, and its places are the texts behind them, so that it
does not change with what stands in front of it.
-/

namespace SwitchMarkup

mutual

/-- One node, inside `depth` switches, from its first character on; keywords count only at the start
of a line. -/
inductive ReadsNode (o : Options) :
    Nat → Bool → List Char → Node (List Char) → List Char → Prop where
  /-- Text that a line may begin with, or that stands within its line. -/
  | text {depth lineStart cs content rest} (hcontent : ReadsText cs content rest)
      (hkeyword : lineStart = true → ¬OpensStatement cs) :
      ReadsNode o depth lineStart cs (.text content) rest
  /-- An expression in braces may stand anywhere. -/
  | output {depth lineStart cs expression rest} (hexpression : ReadsOutput cs expression rest) :
      ReadsNode o depth lineStart cs (.output expression) rest
  /-- A `fallthrough` stands in a clause. -/
  | fallthrough {depth lineStart cs keyword rest} (hline : lineStart = true) (hdepth : depth ≠ 0)
      (hkeyword : ReadsFallthrough cs keyword rest) :
      ReadsNode o depth lineStart cs (.fallthrough keyword) rest
  /-- A switch: its header, its clauses up to the closing brace, and no `fallthrough` at the end. -/
  | switch {depth lineStart cs tag block clauses rest} (hline : lineStart = true)
      (hheader : ReadsSwitchHeader cs tag block) (hlimit : o.limitReached? depth = none)
      (hclauses : ReadsClauses o depth block clauses rest)
      (hfinal : o.enforced (finalFallthrough? clauses) = none) :
      ReadsNode o depth lineStart cs (.switch tag clauses ⟨cs, rest⟩) rest

/-- The nodes of a body inside `depth` switches, with the white space around them, up to the end of
the body. -/
inductive ReadsBody (o : Options) :
    Nat → Bool → List Char → List (Node (List Char)) → List Char → Prop where
  | done {depth lineStart gap rest} (hgap : IsRun isWhiteSpace gap)
      (hend : EndsBody depth (lineStart || gap.contains '\n') rest) :
      ReadsBody o depth lineStart (gap ++ rest) [] rest
  | node {depth lineStart gap cs node mid nodes rest} (hgap : IsRun isWhiteSpace gap)
      (hmore : ¬EndsBody depth (lineStart || gap.contains '\n') cs)
      (hnode : ReadsNode o depth (lineStart || gap.contains '\n') cs node mid)
      (hnodes : ReadsBody o depth false mid nodes rest) :
      ReadsBody o depth lineStart (gap ++ cs) (node :: nodes) rest

/-- The clauses of a switch that stands inside `depth` others, and its closing brace. -/
inductive ReadsClauses (o : Options) :
    Nat → List Char → List (Clause (List Char)) → List Char → Prop where
  | done {depth gap rest} (hgap : IsRun isWhiteSpace gap) :
      ReadsClauses o depth (gap ++ '\x7d' :: rest) [] rest
  | clause {depth gap cs header mid children stop clauses rest} (hgap : IsRun isWhiteSpace gap)
      (hheader : ReadsClauseHeader cs header mid)
      (hbody : ReadsBody o (depth + 1) true mid children stop)
      (hearly : o.enforced (earlyFallthrough? children) = none)
      (hclauses : ReadsClauses o depth stop clauses rest) :
      ReadsClauses o depth (gap ++ cs) (⟨header, children⟩ :: clauses) rest

end

variable {o : Options} {depth : Nat} {lineStart : Bool} {gap cs mid rest : List Char}
  {node : Node (List Char)} {nodes : List (Node (List Char))} {clauses : List (Clause (List Char))}

/-! ## Misplaced fallthroughs -/

theorem Options.enforced_eq_none_iff {π : Type} {misplaced : Option π} :
    o.enforced misplaced = none ↔ (o.placement = true → misplaced = none) := by
  rw [Options.enforced]
  split
  · next h => simp [h]
  · next h => simp [h]

theorem Options.enforced_map_eq_none_iff {π ρ : Type} {f : π → ρ} {misplaced : Option π} :
    o.enforced (misplaced.map f) = none ↔ o.enforced misplaced = none := by
  rw [Options.enforced_map, Option.map_eq_none_iff]

/-! ## What a construct begins with -/

theorem stops_of_isPrefix {word : List Char} (hword : word ≠ []) (hstart : Stops isWhiteSpace word)
    (h : word <+: cs) : Stops isWhiteSpace cs := by
  obtain ⟨more, rfl⟩ := h
  cases word with
  | nil => exact absurd rfl hword
  | cons c word => exact stops_cons.2 (stops_cons.1 hstart)

theorem OpensClause.stops (h : OpensClause cs) : Stops isWhiteSpace cs := by
  rcases h with h | h
  · exact stops_of_isPrefix (by decide) (stops_cons.2 (by decide)) h
  · exact stops_of_isPrefix (by decide) (stops_cons.2 (by decide)) h

theorem EndsBody.stops (h : EndsBody depth lineStart cs) : Stops isWhiteSpace cs := by
  rw [EndsBody] at h
  split at h
  · rw [h]
    exact stops_nil
  · rcases h with h | ⟨-, h⟩
    · exact stops_of_isPrefix (by decide) (stops_cons.2 (by decide)) h
    · exact h.stops

/-- A node begins with a visible character, which is no closing brace. -/
theorem ReadsNode.exists_cons (h : ReadsNode o depth lineStart cs node rest) :
    ∃ c ds, cs = c :: ds ∧ isWhiteSpace c = false ∧ c ≠ '\x7d' := by
  cases h with
  | text hcontent _ =>
    obtain @⟨run, rest, hne, hstart, hrun, -⟩ := hcontent
    cases run with
    | nil => exact absurd rfl hne
    | cons c run =>
      refine ⟨c, run ++ rest, rfl, stops_cons.1 hstart, ?_⟩
      rintro rfl
      exact absurd (isRun_cons.1 hrun).1 (by decide)
  | output hexpression =>
    obtain @⟨run, rest, -, -⟩ := hexpression
    exact ⟨_, _, rfl, by decide, by decide⟩
  | fallthrough _ _ hkeyword =>
    obtain @⟨pad, rest, -, -⟩ := hkeyword
    exact ⟨'f', _, rfl, by decide, by decide⟩
  | switch _ hheader _ _ _ =>
    obtain @⟨gap, run, pad, lineEnd, rest, -, -, -, -, -⟩ := hheader
    exact ⟨'s', _, rfl, by decide, by decide⟩

theorem ReadsNode.stops (h : ReadsNode o depth lineStart cs node rest) :
    Stops isWhiteSpace cs := by
  obtain ⟨c, ds, rfl, hc, -⟩ := h.exists_cons
  exact stops_cons.2 hc

theorem ReadsNode.ne_nil (h : ReadsNode o depth lineStart cs node rest) : cs ≠ [] := by
  obtain ⟨c, ds, rfl, -, -⟩ := h.exists_cons
  exact List.cons_ne_nil c ds

theorem ReadsNode.not_closes (h : ReadsNode o depth lineStart cs node rest) :
    ¬['\x7d'] <+: cs := by
  obtain ⟨c, ds, rfl, -, hc⟩ := h.exists_cons
  intro hbegins
  exact hc (List.cons_prefix_cons.1 hbegins).1.symm

/-! ## White space in front of a body or of a clause -/

theorem exists_white_append (cs : List Char) :
    ∃ gap ds, cs = gap ++ ds ∧ IsRun isWhiteSpace gap ∧ Stops isWhiteSpace ds :=
  ⟨_, _, List.takeWhile_append_dropWhile.symm, isRun_takeWhile isWhiteSpace cs,
    stops_dropWhile isWhiteSpace cs⟩

/-- A body is at its end or goes on with a node, and never both. -/
theorem readsBody_append_iff (hgap : IsRun isWhiteSpace gap) (hcs : Stops isWhiteSpace cs) :
    ReadsBody o depth lineStart (gap ++ cs) nodes rest ↔
      (EndsBody depth (lineStart || gap.contains '\n') cs ∧ nodes = [] ∧ rest = cs) ∨
      (¬EndsBody depth (lineStart || gap.contains '\n') cs ∧
        ∃ node mid more, ReadsNode o depth (lineStart || gap.contains '\n') cs node mid ∧
          ReadsBody o depth false mid more rest ∧ nodes = node :: more) := by
  constructor
  · intro h
    generalize htext : gap ++ cs = text at h
    cases h with
    | done hgap' hend =>
      obtain ⟨rfl, rfl⟩ := run_append_inj htext hgap hcs hgap' hend.stops
      exact .inl ⟨hend, rfl, rfl⟩
    | node hgap' hmore hnode hnodes =>
      obtain ⟨rfl, rfl⟩ := run_append_inj htext hgap hcs hgap' hnode.stops
      exact .inr ⟨hmore, _, _, _, hnode, hnodes, rfl⟩
  · rintro (⟨hend, rfl, rfl⟩ | ⟨hmore, node, mid, more, hnode, hnodes, rfl⟩)
    · exact .done hgap hend
    · exact .node hgap hmore hnode hnodes

/-- Behind white space a body is at its end, or goes on with a node. -/
theorem readsBody_iff (hcs : Stops isWhiteSpace cs) :
    ReadsBody o depth lineStart cs nodes rest ↔
      (EndsBody depth lineStart cs ∧ nodes = [] ∧ rest = cs) ∨
      (¬EndsBody depth lineStart cs ∧ ∃ node mid more, ReadsNode o depth lineStart cs node mid ∧
        ReadsBody o depth false mid more rest ∧ nodes = node :: more) := by
  have h : ReadsBody o depth lineStart ([] ++ cs) nodes rest ↔ _ :=
    readsBody_append_iff isRun_nil hcs
  simp only [List.nil_append, List.contains_nil, Bool.or_false] at h
  exact h

theorem ReadsBody.exists_readsNode (h : ReadsBody o depth lineStart cs (node :: nodes) rest) :
    ∃ lineStart ds mid, ReadsNode o depth lineStart ds node mid := by
  cases h with
  | node _ _ hnode _ => exact ⟨_, _, _, hnode⟩

/-- The first node of a body that begins with a visible character begins there. -/
theorem ReadsBody.exists_node (h : ReadsBody o depth lineStart cs (node :: nodes) rest)
    (hcs : Stops isWhiteSpace cs) :
    ¬EndsBody depth lineStart cs ∧ ∃ mid, ReadsNode o depth lineStart cs node mid ∧
      ReadsBody o depth false mid nodes rest := by
  rcases (readsBody_iff hcs).1 h with ⟨-, hnil, -⟩ | ⟨hmore, _, mid, _, hnode, hnodes, heq⟩
  · cases hnil
  · cases heq
    exact ⟨hmore, mid, hnode, hnodes⟩

/-- Only white space stands in front of the end of a body without further nodes. -/
theorem ReadsBody.exists_gap (h : ReadsBody o depth lineStart cs [] rest) :
    ∃ gap, IsRun isWhiteSpace gap ∧ cs = gap ++ rest := by
  cases h with
  | @done _ _ gap rest hgap _ => exact ⟨gap, hgap, rfl⟩

/-- A node in front of a body, where no clause begins, makes a longer one. -/
theorem ReadsBody.cons (hnode : ReadsNode o depth lineStart cs node mid)
    (hopens : depth ≠ 0 → lineStart = true → ¬OpensClause cs)
    (hnodes : ReadsBody o depth false mid nodes rest) :
    ReadsBody o depth lineStart cs (node :: nodes) rest := by
  refine (readsBody_iff hnode.stops).2 (.inr ⟨?_, node, mid, nodes, hnode, hnodes, rfl⟩)
  rw [EndsBody]
  split
  next => exact hnode.ne_nil
  next hdepth =>
    rintro (hcloses | ⟨hline, hclause⟩)
    · exact hnode.not_closes hcloses
    · exact hopens hdepth hline hclause

/-- White space in front of a body counts only for the line break that it may hold. -/
theorem readsBody_gap_iff (hgap : IsRun isWhiteSpace gap) :
    ReadsBody o depth lineStart (gap ++ cs) nodes rest ↔
      ReadsBody o depth (lineStart || gap.contains '\n') cs nodes rest := by
  obtain ⟨pad, ds, rfl, hpad, hds⟩ := exists_white_append cs
  rw [← List.append_assoc, readsBody_append_iff (isRun_append.2 ⟨hgap, hpad⟩) hds,
    readsBody_append_iff hpad hds]
  simp only [List.contains_append, Bool.or_assoc]

/-- A line break in front of a body is all that it needs for a line start. -/
theorem readsBody_newline_iff :
    ReadsBody o depth lineStart ('\n' :: cs) nodes rest ↔ ReadsBody o depth true cs nodes rest := by
  have h : ReadsBody o depth lineStart (['\n'] ++ cs) nodes rest ↔ _ :=
    readsBody_gap_iff (isRun_cons.2 ⟨by decide, isRun_nil⟩)
  rw [List.singleton_append] at h
  simpa using h

/-- The clauses of a switch are at their end, or go on with a clause. -/
theorem readsClauses_append_iff (hgap : IsRun isWhiteSpace gap) (hcs : Stops isWhiteSpace cs) :
    ReadsClauses o depth (gap ++ cs) clauses rest ↔
      (cs = '\x7d' :: rest ∧ clauses = []) ∨
      ∃ header mid children stop more, ReadsClauseHeader cs header mid ∧
        ReadsBody o (depth + 1) true mid children stop ∧
        o.enforced (earlyFallthrough? children) = none ∧
        ReadsClauses o depth stop more rest ∧ clauses = ⟨header, children⟩ :: more := by
  constructor
  · intro h
    generalize htext : gap ++ cs = text at h
    cases h with
    | done hgap' =>
      obtain ⟨rfl, rfl⟩ :=
        run_append_inj htext hgap hcs hgap' (stops_cons.2 (by decide))
      exact .inl ⟨rfl, rfl⟩
    | clause hgap' hheader hbody hearly hclauses =>
      obtain ⟨rfl, rfl⟩ :=
        run_append_inj htext hgap hcs hgap' hheader.opensClause.stops
      exact .inr ⟨_, _, _, _, _, hheader, hbody, hearly, hclauses, rfl⟩
  · rintro (⟨rfl, rfl⟩ | ⟨header, mid, children, stop, more, hheader, hbody, hearly, hmore, rfl⟩)
    · exact .done hgap
    · exact .clause hgap hheader hbody hearly hmore

/-- Behind white space the clauses of a block are at the closing brace, or go on with a header. -/
theorem readsClauses_iff (hcs : Stops isWhiteSpace cs) :
    ReadsClauses o depth cs clauses rest ↔
      (cs = '\x7d' :: rest ∧ clauses = []) ∨
      ∃ header mid children stop more, ReadsClauseHeader cs header mid ∧
        ReadsBody o (depth + 1) true mid children stop ∧
        o.enforced (earlyFallthrough? children) = none ∧
        ReadsClauses o depth stop more rest ∧ clauses = ⟨header, children⟩ :: more :=
  readsClauses_append_iff isRun_nil hcs

theorem readsClauses_gap_iff (hgap : IsRun isWhiteSpace gap) :
    ReadsClauses o depth (gap ++ cs) clauses rest ↔ ReadsClauses o depth cs clauses rest := by
  obtain ⟨pad, ds, rfl, hpad, hds⟩ := exists_white_append cs
  rw [← List.append_assoc, readsClauses_append_iff (isRun_append.2 ⟨hgap, hpad⟩) hds,
    readsClauses_append_iff hpad hds]

/-- What stands behind a body ends it. -/
theorem ReadsBody.endsBody : ∀ {lineStart cs nodes rest}, ReadsBody o depth lineStart cs nodes rest →
    ∃ lineStart', EndsBody depth lineStart' rest
  | _, _, _, _, .done _ hend => ⟨_, hend⟩
  | _, _, _, _, .node _ _ _ hnodes => hnodes.endsBody

/-- A `fallthrough` stands in no body outside of all switches. -/
theorem ReadsBody.depth_ne_zero {keyword : Fragment (List Char)} :
    ∀ {lineStart cs nodes rest}, ReadsBody o depth lineStart cs nodes rest →
      .fallthrough keyword ∈ nodes → depth ≠ 0
  | _, _, _, _, .node _ _ hnode hnodes, hmem => by
    rcases List.mem_cons.1 hmem with rfl | hmem
    · cases hnode with
      | fallthrough _ hdepth _ => exact hdepth
    · exact hnodes.depth_ne_zero hmem

/-! ## Which node a text begins with -/

/-- At the start of a line, `fallthrough` begins that statement. -/
theorem readsNode_fallthrough_iff (h : Keyword.fallthrough <+: cs) :
    ReadsNode o depth true cs node rest ↔
      depth ≠ 0 ∧ ∃ keyword, ReadsFallthrough cs keyword rest ∧ node = .fallthrough keyword := by
  constructor
  · intro hnode
    cases hnode with
    | text _ hkeyword => exact absurd (.inl h) (hkeyword rfl)
    | output hexpression =>
      obtain @⟨run, rest, -, -⟩ := hexpression
      cases (List.cons_prefix_cons.1 h).1
    | fallthrough _ hdepth hkeyword => exact ⟨hdepth, _, hkeyword, rfl⟩
    | switch _ hheader _ _ _ =>
      obtain @⟨gap, run, pad, lineEnd, rest, -, -, -, -, -⟩ := hheader
      cases (List.cons_prefix_cons.1 h).1
  · rintro ⟨hdepth, keyword, hkeyword, rfl⟩
    exact .fallthrough rfl hdepth hkeyword

/-- At the start of a line, `switch` and a space begin that statement. -/
theorem readsNode_switch_iff (h : Keyword.spaced Keyword.switch <+: cs) :
    ReadsNode o depth true cs node rest ↔
      ∃ tag block clauses, ReadsSwitchHeader cs tag block ∧ o.limitReached? depth = none ∧
        ReadsClauses o depth block clauses rest ∧
        o.enforced (finalFallthrough? clauses) = none ∧
        node = .switch tag clauses ⟨cs, rest⟩ := by
  constructor
  · intro hnode
    cases hnode with
    | text _ hkeyword => exact absurd (.inr h) (hkeyword rfl)
    | output hexpression =>
      obtain @⟨run, rest, -, -⟩ := hexpression
      cases (List.cons_prefix_cons.1 h).1
    | fallthrough _ _ hkeyword =>
      obtain @⟨pad, rest, -, -⟩ := hkeyword
      cases (List.cons_prefix_cons.1 h).1
    | switch _ hheader hlimit hclauses hfinal =>
      exact ⟨_, _, _, hheader, hlimit, hclauses, hfinal, rfl⟩
  · rintro ⟨tag, block, clauses, hheader, hlimit, hclauses, hfinal, rfl⟩
    exact .switch rfl hheader hlimit hclauses hfinal

/-- An opening brace begins an expression. -/
theorem readsNode_output_iff (h : ['\x7b'] <+: cs) :
    ReadsNode o depth lineStart cs node rest ↔
      ∃ expression, ReadsOutput cs expression rest ∧ node = .output expression := by
  constructor
  · intro hnode
    cases hnode with
    | text hcontent _ =>
      obtain @⟨run, rest, hne, -, hrun, -⟩ := hcontent
      cases run with
      | nil => exact absurd rfl hne
      | cons c run =>
        obtain rfl := (List.cons_prefix_cons.1 h).1
        exact absurd (isRun_cons.1 hrun).1 (by decide)
    | output hexpression => exact ⟨_, hexpression, rfl⟩
    | fallthrough _ _ hkeyword =>
      obtain @⟨pad, rest, -, -⟩ := hkeyword
      cases (List.cons_prefix_cons.1 h).1
    | switch _ hheader _ _ _ =>
      obtain @⟨gap, run, pad, lineEnd, rest, -, -, -, -, -⟩ := hheader
      cases (List.cons_prefix_cons.1 h).1
  · rintro ⟨expression, hexpression, rfl⟩
    exact .output hexpression

/-- What is neither a keyword nor a brace begins text. -/
theorem readsNode_text_iff (hkeyword : lineStart = true → ¬OpensStatement cs)
    (hbrace : ¬['\x7b'] <+: cs) :
    ReadsNode o depth lineStart cs node rest ↔
      ∃ content, ReadsText cs content rest ∧ node = .text content := by
  constructor
  · intro hnode
    cases hnode with
    | text hcontent _ => exact ⟨_, hcontent, rfl⟩
    | output hexpression =>
      obtain @⟨run, rest, -, -⟩ := hexpression
      exact absurd (List.prefix_append ['\x7b'] _) hbrace
    | fallthrough hline _ hfallthrough =>
      obtain @⟨pad, rest, -, -⟩ := hfallthrough
      exact absurd (.inl (List.prefix_append _ _)) (hkeyword hline)
    | switch hline hheader _ _ _ =>
      obtain @⟨gap, run, pad, lineEnd, rest, -, -, -, -, -⟩ := hheader
      exact absurd (.inr (List.prefix_append _ _)) (hkeyword hline)
  · rintro ⟨content, hcontent, rfl⟩
    exact .text hcontent hkeyword

end SwitchMarkup

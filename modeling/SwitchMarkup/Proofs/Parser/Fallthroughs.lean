import SwitchMarkup.Proofs.Grammar.Run
import SwitchMarkup.Proofs.Grammar.Suffix
import SwitchMarkup.Proofs.Template.Blocks
import SwitchMarkup.Proofs.Template.Placement
import SwitchMarkup.Template.Equality

/-!
# Where the fallthroughs of a parsed template stand

The rules on `fallthrough` are enforced at three moments of a parse: when one is met outside of all
clauses, when a clause ends, and when a switch ends. Together they leave it only one place, at the
end of a clause that another one follows, and what stands behind it in the source is the header of
that other clause.
-/

namespace SwitchMarkup

variable {π ρ : Type}

/-- The fallthroughs in the clauses of a switch are where they may be: each is the last node of its
clause and the only one there, its clause is not the last, and it leads to the header of the next
clause, in the sense of `leads`. -/
structure FallthroughsPlaced (leads : Fragment π → Header π → Prop) (clauses : List (Clause π)) :
    Prop where
  at_end : ∀ clause ∈ clauses, ∀ keyword, .fallthrough keyword ∈ clause.children →
    ∃ others, clause.children = others ++ [.fallthrough keyword] ∧
      ∀ other, .fallthrough other ∉ others
  not_final : ∀ clause ∈ clauses.getLast?, ∀ keyword, .fallthrough keyword ∉ clause.children
  leads_on : ∀ before clause next after, clauses = before ++ clause :: next :: after →
    ∀ keyword, .fallthrough keyword ∈ clause.children → leads keyword next.header

/-- A clause header stands at a byte offset of a source: its keyword is there, and behind that and
white space what its place in the template is. -/
def Header.StandsAt (source : String) (offset : Nat) : Header Position → Prop
  | .case list => ∃ white, IsRun isWhiteSpace white ∧
      Keyword.spaced Keyword.case ++ white <+: dropBytes offset source.toList ∧
      list.span.start.index = offset + byteLength (Keyword.spaced Keyword.case ++ white)
  | .default keyword =>
    Keyword.default <+: dropBytes offset source.toList ∧ keyword.start.index = offset

/-- Right behind a keyword stands white space with a line feed in it, and then a clause header. -/
def LeadsOn (source : String) (keyword : Fragment Position) (header : Header Position) : Prop :=
  ∃ white, white <+: dropBytes keyword.span.stop.index source.toList ∧
    IsRun isWhiteSpace white ∧ '\n' ∈ white ∧
    header.StandsAt source (keyword.span.stop.index + byteLength white)

/-! ## Places given by texts -/

/-- The clause header begins the text. -/
def Header.Heads (cs : List Char) : Header (List Char) → Prop
  | .case list => ∃ white, IsRun isWhiteSpace white ∧
      cs = Keyword.spaced Keyword.case ++ (white ++ list.span.start)
  | .default keyword => Keyword.default <+: cs ∧ keyword.start = cs

/-- The same of places that are given by the texts behind them. -/
def LeadsOnText (source : List Char) (keyword : Fragment (List Char)) (header : Header (List Char)) :
    Prop :=
  keyword.span.stop <:+ source ∧
    ∃ white cs, keyword.span.stop = white ++ cs ∧ IsRun isWhiteSpace white ∧ '\n' ∈ white ∧
      header.Heads cs

theorem Header.Heads.standsAt {source : String} {header : Header (List Char)} {cs : List Char}
    (h : header.Heads cs) (hcs : cs <:+ source.toList) :
    (header.map (Source.ofString source).placeBefore).StandsAt source
      ((Source.ofString source).placeBefore cs).index := by
  cases header with
  | case list =>
    obtain ⟨white, hwhite, rfl⟩ := h
    refine ⟨white, hwhite, ?_, ?_⟩
    · rw [Source.dropBytes_placeBefore hcs, ← List.append_assoc]
      exact List.prefix_append ..
    · obtain ⟨front, hfront⟩ := hcs
      rw [Source.index_placeBefore front _ hfront, ← byteLength_append]
      refine Source.index_placeBefore _ list.span.start ?_
      rw [← hfront]
      simp only [List.append_assoc]
  | default keyword =>
    obtain ⟨hdefault, rfl⟩ := h
    refine ⟨?_, rfl⟩
    rw [Source.dropBytes_placeBefore hcs]
    exact hdefault

/-- A keyword that leads on to a header in the text does so at their positions. -/
theorem LeadsOnText.leadsOn {source : String} {keyword : Fragment (List Char)}
    {header : Header (List Char)} (h : LeadsOnText source.toList keyword header) :
    LeadsOn source (keyword.map (Source.ofString source).placeBefore)
      (header.map (Source.ofString source).placeBefore) := by
  obtain ⟨hsuffix, white, cs, hstop, hwhite, hline, hheads⟩ := h
  refine ⟨white, ?_, hwhite, hline, ?_⟩
  · show white <+: dropBytes ((Source.ofString source).placeBefore keyword.span.stop).index _
    rw [Source.dropBytes_placeBefore hsuffix, hstop]
    exact List.prefix_append ..
  · rw [hstop] at hsuffix
    have hcs := (List.suffix_append white cs).trans hsuffix
    have hplace := hheads.standsAt hcs
    obtain ⟨front, hfront⟩ := hsuffix
    have hindex : ((Source.ofString source).placeBefore cs).index =
        ((Source.ofString source).placeBefore keyword.span.stop).index + byteLength white := by
      rw [hstop, Source.index_placeBefore front _ hfront, ← byteLength_append]
      refine Source.index_placeBefore _ cs ?_
      rw [List.append_assoc, hfront]
    rw [hindex] at hplace
    exact hplace

variable {o : Options} {depth : Nat} {cs mid rest source : List Char}
  {keyword : Fragment (List Char)} {clauses : List (Clause (List Char))}

/-! ## What stands behind a fallthrough -/

theorem ReadsClauseHeader.heads {header : Header (List Char)}
    (h : ReadsClauseHeader cs header rest) : header.Heads cs := by
  cases h with
  | @case gap run rest hgap _ _ _ =>
    refine ⟨gap ++ run.takeWhile isWhiteSpace, isRun_append.2 ⟨?_, ?_⟩, ?_⟩
    · exact hgap.mono fun _ => isWhiteSpace_of_isBlank
    · exact isRun_takeWhile isWhiteSpace run
    · show _ = Keyword.spaced Keyword.case ++
        (gap ++ run.takeWhile isWhiteSpace ++ (trimStart run ++ ':' :: rest))
      rw [List.append_assoc, ← List.append_assoc (run.takeWhile isWhiteSpace),
        takeWhile_append_trimStart]
  | default _ => exact ⟨List.prefix_append .., rfl⟩

/-- Behind the keyword of a `fallthrough` stand the blanks that it takes with it. -/
theorem ReadsFallthrough.exists_pad (h : ReadsFallthrough cs keyword rest) :
    ∃ pad, IsRun isBlank pad ∧ keyword.span.stop = pad ++ rest ∧ keyword.span.stop <:+ cs := by
  obtain @⟨pad, rest, hpad, -⟩ := h
  have hstop : (Fragment.ofRun Keyword.fallthrough (pad ++ rest)).span.stop = pad ++ rest := by
    have hdrop : (trimStart Keyword.fallthrough).drop (trim Keyword.fallthrough).length = [] := by
      decide
    rw [Fragment.ofRun, hdrop, List.nil_append]
  refine ⟨pad, hpad, hstop, ?_⟩
  rw [hstop]
  exact List.suffix_append ..

/-- A body that ends with a `fallthrough` has only white space behind that, and a line feed in it
unless the closing brace of the switch comes next. -/
theorem ReadsBody.stop_fallthrough :
    ∀ {lineStart cs nodes rest}, ReadsBody o depth lineStart cs nodes rest →
      ∀ others, nodes = others ++ [.fallthrough keyword] →
        keyword.span.stop <:+ cs ∧ ∃ white, keyword.span.stop = white ++ rest ∧
          IsRun isWhiteSpace white ∧ ('\n' ∈ white ∨ EndsBody depth false rest)
  | _, _, _, _, .done _ _, others, h => by simp at h
  | _, _, _, _, .node hgap _ hnode hnodes, others, h => by
    cases others with
    | nil =>
      obtain ⟨rfl, rfl⟩ := List.cons_eq_cons.1 h
      cases hnode with
      | fallthrough _ _ hkeyword =>
        obtain ⟨pad, hpad, hstop, hsuffix⟩ := hkeyword.exists_pad
        refine ⟨hsuffix.trans (List.suffix_append ..), ?_⟩
        generalize hmid : keyword.span.stop = stop at hstop
        cases hnodes with
        | @done _ _ gap rest hgap' hend =>
          have hwhite := hpad.mono fun _ => isWhiteSpace_of_isBlank
          refine ⟨pad ++ gap, ?_, isRun_append.2 ⟨hwhite, hgap'⟩, ?_⟩
          · rw [hstop, List.append_assoc]
          · by_cases hline : '\n' ∈ gap
            · exact .inl (List.mem_append_right _ hline)
            · right
              rw [Bool.false_or, List.contains_eq_mem, decide_eq_false hline] at hend
              exact hend
    | cons other others =>
      obtain ⟨-, hothers⟩ := List.cons_eq_cons.1 h
      obtain ⟨hsuffix, hbehind⟩ := hnodes.stop_fallthrough others hothers
      exact ⟨(hsuffix.trans hnode.suffix).trans (List.suffix_append ..), hbehind⟩

/-- A `fallthrough` that ends a clause leads on to the header of the next one. -/
theorem ReadsClauses.leadsOn :
    ∀ {cs clauses rest}, ReadsClauses o depth cs clauses rest → ∀ before c next after others,
      clauses = before ++ c :: next :: after →
      c.children = others ++ [.fallthrough keyword] →
      LeadsOnText cs keyword next.header
  | _, _, _, .done _, before, c, next, after, others, h, _ => by simp at h
  | _, _, _, .clause hgap hheader hbody hearly hclauses, before, c, next, after, others, h,
      hchildren => by
    cases before with
    | nil =>
      obtain ⟨rfl, rfl⟩ := List.cons_eq_cons.1 h
      obtain ⟨hsuffix, white, hstop, hwhite, hends⟩ := hbody.stop_fallthrough others hchildren
      obtain ⟨lineStart, hend⟩ := hbody.endsBody
      rcases (readsClauses_iff hend.stops).1 hclauses with
        ⟨-, hnil⟩ | ⟨header, mid, children, stop, more, hnext, -, -, -, hcons⟩
      · cases hnil
      · obtain ⟨rfl, -⟩ := List.cons_eq_cons.1 hcons
        refine ⟨(hsuffix.trans hheader.suffix).trans (List.suffix_append ..), white, _, hstop, hwhite,
          ?_, hnext.heads⟩
        rcases hends with hline | hend'
        · exact hline
        · rcases endsBody_succ_iff.1 hend' with hcloses | ⟨hfalse, -⟩
          · exact absurd hnext.opensClause (not_opensClause_of_closes hcloses)
          · cases hfalse
    | cons first before =>
      obtain ⟨-, hbefore⟩ := List.cons_eq_cons.1 h
      obtain ⟨hsuffix, hbehind⟩ :=
        hclauses.leadsOn before c next after others hbefore hchildren
      exact ⟨((hsuffix.trans hbody.suffix).trans hheader.suffix).trans (List.suffix_append ..),
        hbehind⟩

/-! ## Every switch of a derivation -/

theorem ReadsClauses.enforced_early :
    ∀ {cs clauses rest}, ReadsClauses o depth cs clauses rest → ∀ c ∈ clauses,
      o.enforced (earlyFallthrough? c.children) = none
  | _, _, _, .clause _ _ _ hearly hclauses, c, hmem => by
    rcases List.mem_cons.1 hmem with rfl | hmem
    · exact hearly
    · exact hclauses.enforced_early c hmem

/-- With the checks, every `fallthrough` of a block ends its clause and leads on to the next one. -/
theorem ReadsClauses.placed (hplacement : o.placement = true)
    (h : ReadsClauses o depth cs clauses rest)
    (hfinal : o.enforced (finalFallthrough? clauses) = none) (hsource : cs <:+ source) :
    FallthroughsPlaced (LeadsOnText source) clauses := by
  have hat_end : ∀ c ∈ clauses, ∀ keyword, .fallthrough keyword ∈ c.children →
      ∃ others, c.children = others ++ [.fallthrough keyword] ∧
        ∀ other, .fallthrough other ∉ others := by
    intro c hc keyword hmem
    have hearly := Options.enforced_eq_none_iff.1 (h.enforced_early c hc) hplacement
    exact exists_append_of_earlyFallthrough? hearly hmem
  refine ⟨hat_end, ?_, ?_⟩
  · intro c hc keyword hmem
    obtain ⟨others, hchildren, -⟩ := hat_end c (List.mem_of_getLast? hc) keyword hmem
    have hlast := finalFallthrough?_eq_none_iff.1
      (Options.enforced_eq_none_iff.1 hfinal hplacement) c hc keyword
    rw [hchildren, List.getLast?_concat] at hlast
    exact hlast rfl
  · intro before c next after hclauses keyword hmem
    have hc : c ∈ clauses := by
      rw [hclauses]
      exact List.mem_append_right _ List.mem_cons_self
    obtain ⟨others, hchildren, -⟩ := hat_end c hc keyword hmem
    obtain ⟨hsuffix, hbehind⟩ := h.leadsOn before c next after others hclauses hchildren
    exact ⟨hsuffix.trans hsource, hbehind⟩

mutual

theorem ReadsNode.blocks_placed (hplacement : o.placement = true) :
    ∀ {depth lineStart cs node rest}, ReadsNode o depth lineStart cs node rest → cs <:+ source →
      ∀ clauses ∈ node.blocks, FallthroughsPlaced (LeadsOnText source) clauses
  | _, _, _, _, _, .text _ _, _, _, hmem => absurd hmem List.not_mem_nil
  | _, _, _, _, _, .output _, _, _, hmem => absurd hmem List.not_mem_nil
  | _, _, _, _, _, .fallthrough _ _ _, _, _, hmem => absurd hmem List.not_mem_nil
  | _, _, _, _, _, .switch _ hheader _ hclauses hfinal, hsource, clauses, hmem => by
    have hblock := hheader.suffix.trans hsource
    rcases List.mem_cons.1 hmem with rfl | hmem
    · exact hclauses.placed hplacement hfinal hblock
    · exact hclauses.blocks_placed hplacement hblock clauses hmem

theorem ReadsBody.blocks_placed (hplacement : o.placement = true) :
    ∀ {depth lineStart cs nodes rest}, ReadsBody o depth lineStart cs nodes rest → cs <:+ source →
      ∀ clauses ∈ Template.blocks nodes, FallthroughsPlaced (LeadsOnText source) clauses
  | _, _, _, _, _, .done _ _, _, _, hmem => absurd hmem List.not_mem_nil
  | _, _, _, _, _, .node _ _ hnode hnodes, hsource, clauses, hmem => by
    have hcs := (List.suffix_append ..).trans hsource
    rcases List.mem_append.1 hmem with hmem | hmem
    · exact hnode.blocks_placed hplacement hcs clauses hmem
    · exact hnodes.blocks_placed hplacement (hnode.suffix.trans hcs) clauses hmem

theorem ReadsClauses.blocks_placed (hplacement : o.placement = true) :
    ∀ {depth cs clauses rest}, ReadsClauses o depth cs clauses rest → cs <:+ source →
      ∀ block ∈ Clause.blocks clauses, FallthroughsPlaced (LeadsOnText source) block
  | _, _, _, _, .done _, _, _, hmem => absurd hmem List.not_mem_nil
  | _, _, _, _, .clause _ hheader hbody _ hclauses, hsource, block, hmem => by
    have hmid := hheader.suffix.trans ((List.suffix_append ..).trans hsource)
    rcases List.mem_append.1 hmem with hmem | hmem
    · exact hbody.blocks_placed hplacement hmid block hmem
    · exact hclauses.blocks_placed hplacement (hbody.suffix.trans hmid) block hmem

end

/-! ## Parsed templates -/

/-- A change of places takes placed fallthroughs to placed ones. -/
theorem FallthroughsPlaced.mapAll {leads : Fragment π → Header π → Prop}
    {leads' : Fragment ρ → Header ρ → Prop} {clauses : List (Clause π)} {f : π → ρ}
    (h : FallthroughsPlaced leads clauses)
    (hf : ∀ keyword header, leads keyword header → leads' (keyword.map f) (header.map f)) :
    FallthroughsPlaced leads' (Clause.mapAll f clauses) := by
  rw [Clause.mapAll_eq_map]
  refine ⟨?_, ?_, ?_⟩
  · intro c' hc' keyword' hmem'
    obtain ⟨c, hc, rfl⟩ := List.mem_map.1 hc'
    rw [Clause.children_map] at hmem' ⊢
    obtain ⟨keyword, hmem, rfl⟩ := Template.exists_of_fallthrough_mem_map hmem'
    obtain ⟨others, hchildren, hothers⟩ := h.at_end c hc keyword hmem
    refine ⟨Template.map f others, ?_, ?_⟩
    · rw [hchildren, Template.map_append]
      rfl
    · intro other' hother'
      obtain ⟨other, hother, -⟩ := Template.exists_of_fallthrough_mem_map hother'
      exact hothers other hother
  · intro c' hc' keyword' hmem'
    rw [List.getLast?_map] at hc'
    obtain ⟨c, hc, rfl⟩ := Option.map_eq_some_iff.1 hc'
    rw [Clause.children_map] at hmem'
    obtain ⟨keyword, hmem, -⟩ := Template.exists_of_fallthrough_mem_map hmem'
    exact h.not_final c hc keyword hmem
  · intro before' c' next' after' hclauses keyword' hmem'
    obtain ⟨before, more, rfl, -, hmore⟩ := List.map_eq_append_iff.1 hclauses
    obtain ⟨c, more', rfl, rfl, hmore'⟩ := List.map_eq_cons_iff.1 hmore
    obtain ⟨next, after, rfl, rfl, -⟩ := List.map_eq_cons_iff.1 hmore'
    rw [Clause.children_map] at hmem'
    obtain ⟨keyword, hmem, rfl⟩ := Template.exists_of_fallthrough_mem_map hmem'
    rw [Clause.header_map]
    exact hf keyword next.header (h.leads_on before c next after rfl keyword hmem)

/-- In every template that a source holds, with any limit on its nesting, no `fallthrough` stands
outside of all clauses, and in every switch at any depth each one is placed as it has to be, with
the header of the next clause behind it in the source. -/
theorem parse_fallthroughsPlaced (source : String) (limit : Option Nat) (t : Template Position)
    (h : parse source { maxDepth := limit } = .ok t) :
    (∀ keyword, .fallthrough keyword ∉ t) ∧
      ∀ clauses ∈ Template.blocks t, FallthroughsPlaced (LeadsOn source) clauses := by
  obtain ⟨nodes, hbody, rfl⟩ := parse_eq_ok_iff.1 h
  refine ⟨?_, ?_⟩
  · intro keyword' hmem'
    obtain ⟨keyword, hmem, -⟩ := Template.exists_of_fallthrough_mem_map hmem'
    exact hbody.depth_ne_zero hmem rfl
  · intro clauses' hmem'
    rw [Template.blocks_map] at hmem'
    obtain ⟨clauses, hmem, rfl⟩ := List.mem_map.1 hmem'
    exact (hbody.blocks_placed rfl List.suffix_rfl clauses hmem).mapAll
      fun _ _ hleads => hleads.leadsOn

/-- A clause that only falls through, in a switch that the limit just admits. -/
theorem parse_fallthroughsPlaced_default :
    ∃ t, parse "switch \x7b\ncase 1:\nfallthrough\n default:\n\x7d" { maxDepth := some 1 } = .ok t ∧
      (∀ keyword, .fallthrough keyword ∉ t) ∧
      ∀ clauses ∈ Template.blocks t,
        FallthroughsPlaced (LeadsOn "switch \x7b\ncase 1:\nfallthrough\n default:\n\x7d") clauses := by
  have hparse : parse "switch \x7b\ncase 1:\nfallthrough\n default:\n\x7d" { maxDepth := some 1 } =
      .ok [.switch ⟨"", ⟨⟨7, 1, 8⟩, ⟨7, 1, 8⟩⟩⟩
        [⟨.case ⟨"1", ⟨⟨14, 2, 6⟩, ⟨15, 2, 7⟩⟩⟩, [.fallthrough ⟨"fallthrough", ⟨⟨17, 3, 1⟩, ⟨28, 3, 12⟩⟩⟩]⟩,
          ⟨.default ⟨⟨30, 4, 2⟩, ⟨37, 4, 9⟩⟩, []⟩]
        ⟨⟨0, 1, 1⟩, ⟨40, 5, 2⟩⟩] := by
    decide +kernel
  exact ⟨_, hparse, parse_fallthroughsPlaced _ _ _ hparse⟩

end SwitchMarkup

import SwitchMarkup.Proofs.Grammar.Locality
import SwitchMarkup.Proofs.Parser.Seam
import SwitchMarkup.Proofs.Parser.Spans
import SwitchMarkup.Proofs.Template.Expressions

/-!
# White space at the start of a line

Indentation and empty lines have no meaning. A place just behind a line feed lies in the white space
in front of a node, of a clause or of a closing brace, or in the white space around an output, or it
lies strictly inside of an expression; no other part of a construct goes over the end of a line. In
all but the last case any white space may be put there, and the same template is read. Main
statement: `parse_insertWhite`.
-/

namespace SwitchMarkup

open Items

variable {o : Options} {kind : Kind} {w b cs cs' front block gap lead mid pad rest run : List Char}
  {x : Fragment (List Char)} {header : Header (List Char)}

/-! ## Texts with white space put in -/

/-- The second text has `w` in front of the end `b` of the first one, just behind a line feed, and
is the first one otherwise. -/
def Spaced (w b cs cs' : List Char) : Prop :=
  ∃ front, EndsInFeed front ∧ cs = front ++ b ∧ cs' = front ++ (w ++ b)

/-- The end `b` of the source begins outside of a stretch or at one of its ends. -/
def Clear (b : List Char) (s : Span (List Char)) : Prop := s.start <:+ b ∨ b <:+ s.stop

/-- The white space lies in the first part of a text or behind it. -/
theorem Spaced.cases (h : Spaced w b (front ++ mid) cs') :
    (∃ before after, EndsInFeed before ∧ front = before ++ after ∧ b = after ++ mid ∧
      cs' = before ++ (w ++ (after ++ mid))) ∨
    ∃ mid', Spaced w b mid mid' ∧ cs' = front ++ mid' := by
  obtain ⟨before, hfeed, htext, rfl⟩ := h
  rcases List.append_eq_append_iff.1 htext with ⟨more, rfl, rfl⟩ | ⟨after, rfl, rfl⟩
  · by_cases hmore : more = []
    · subst hmore
      rw [List.append_nil] at hfeed ⊢
      exact .inl ⟨front, [], hfeed, (List.append_nil _).symm, rfl, rfl⟩
    · have hbehind := hfeed.of_suffix (List.suffix_append front more) hmore
      exact .inr ⟨more ++ (w ++ b), ⟨more, hbehind, rfl, rfl⟩, List.append_assoc ..⟩
  · exact .inl ⟨before, after, hfeed, rfl, rfl, rfl⟩

/-- The white space lies behind a part without line feeds. -/
theorem Spaced.skip (front : List Char) (h : Spaced w b (front ++ mid) cs')
    (hfront : '\n' ∉ front) :
    ∃ mid', Spaced w b mid mid' ∧ cs' = front ++ mid' := by
  rcases h.cases with ⟨before, after, hfeed, rfl, -, -⟩ | hmid
  · exact absurd (List.mem_append_left after hfeed.mem) hfront
  · exact hmid

/-- The white space lies behind the first part if its place is inside of the second one. -/
theorem Spaced.behind (h : Spaced w b (front ++ mid) cs') (hmid : ¬mid <:+ b) :
    ∃ mid', Spaced w b mid mid' ∧ cs' = front ++ mid' := by
  rcases h.cases with ⟨before, after, -, -, rfl, -⟩ | hmid'
  · exact absurd (List.suffix_append after mid) hmid
  · exact hmid'

/-- The white space makes a gap longer, which has held a line feed before, or lies behind that. -/
theorem Spaced.cases_gap (h : Spaced w b (gap ++ cs) cs') (hgap : IsRun isWhiteSpace gap)
    (hw : IsRun isWhiteSpace w) :
    (∃ gap', IsRun isWhiteSpace gap' ∧ gap'.contains '\n' = gap.contains '\n' ∧
      cs' = gap' ++ cs) ∨
    ∃ ds, Spaced w b cs ds ∧ cs' = gap ++ ds := by
  rcases h.cases with ⟨before, after, hfeed, rfl, -, rfl⟩ | hbehind
  · obtain ⟨hbefore, hafter⟩ := isRun_append.1 hgap
    have hgap' : IsRun isWhiteSpace (before ++ (w ++ after)) :=
      isRun_append.2 ⟨hbefore, isRun_append.2 ⟨hw, hafter⟩⟩
    refine .inl ⟨before ++ (w ++ after), hgap', ?_, by simp only [List.append_assoc]⟩
    have hmem : before.contains '\n' = true := List.contains_iff_mem.2 hfeed.mem
    simp only [List.contains_append, hmem, Bool.true_or]
  · exact .inr hbehind

/-- It lies in front of the end of the text, so a text that it lies in is no end of that. -/
theorem Spaced.not_suffix (h : Spaced w b rest cs') : ¬rest <:+ b := by
  obtain ⟨before, hfeed, rfl, -⟩ := h
  intro hsuffix
  have hle := hsuffix.length_le
  have hpos := List.length_pos_iff.2 hfeed.ne_nil
  rw [List.length_append] at hle
  omega

/-- Nothing that stands in front of either text tells them apart. -/
theorem Spaced.alike (h : Spaced w b cs cs') : Alike cs cs' := by
  obtain ⟨before, hfeed, rfl, rfl⟩ := h
  refine ⟨head?_append_of_ne_nil hfeed.ne_nil _ _, ?_⟩
  rw [OpensClause, OpensClause, hfeed.prefix_append_iff (by decide),
    hfeed.prefix_append_iff (by decide), hfeed.prefix_append_iff (by decide),
    hfeed.prefix_append_iff (by decide)]

/-! ## Constructs -/

/-- A text that ends in a line feed is not trimmed. -/
theorem EndsInFeed.trim_ne (h : EndsInFeed cs) : trim cs ≠ cs := by
  intro htrim
  have hend := (trim_eq_self_iff.1 htrim).2
  rw [Stops, List.head?_reverse, h] at hend
  exact absurd (hend '\n' rfl) (by decide)

/-- A place in a run that is not strictly inside of the trimmed piece lies in the white space in
front of the piece or in that behind it. -/
theorem Clear.exists_padding {before after : List Char} (hrun : run = before ++ after)
    (h : Clear (after ++ rest) (Fragment.ofRun run rest).span) :
    ∃ lead pad, IsRun isWhiteSpace lead ∧ IsRun isWhiteSpace pad ∧
      run = lead ++ (trim run ++ pad) ∧
      ((∃ more, lead = before ++ more ∧ after = more ++ (trim run ++ pad)) ∨
        ∃ more, before = lead ++ (trim run ++ more) ∧ pad = more ++ after) := by
  obtain ⟨lead, pad, hlead, hpad, hcut, hspan⟩ := Fragment.exists_span_ofRun run rest
  refine ⟨lead, pad, hlead, hpad, hcut, ?_⟩
  rw [Clear, hspan] at h
  generalize trim run = piece at hcut h ⊢
  have hwhole : before ++ after = lead ++ (piece ++ pad) := hrun.symm.trans hcut
  rcases h with ⟨more, hmore⟩ | ⟨more, hmore⟩
  · have hafter : after = more ++ (piece ++ pad) := by
      refine List.append_cancel_right (?_ : _ ++ rest = _ ++ rest)
      simp only [List.append_assoc] at hmore ⊢
      exact hmore.symm
    rw [hafter, ← List.append_assoc] at hwhole
    exact .inl ⟨more, (List.append_cancel_right hwhole).symm, hafter⟩
  · have hpad' : pad = more ++ after := by
      refine List.append_cancel_right (?_ : _ ++ rest = _ ++ rest)
      rw [List.append_assoc]
      exact hmore.symm
    rw [hpad', ← List.append_assoc piece, ← List.append_assoc lead] at hwhole
    exact .inr ⟨more, List.append_cancel_right hwhole, hpad'⟩

/-- White space put there comes to that around the piece. -/
theorem Clear.exists_white_around {before after : List Char} (hrun : run = before ++ after)
    (h : Clear (after ++ rest) (Fragment.ofRun run rest).span) (hw : IsRun isWhiteSpace w) :
    ∃ lead pad, IsRun isWhiteSpace lead ∧ IsRun isWhiteSpace pad ∧
      before ++ (w ++ after) = lead ++ (trim run ++ pad) := by
  obtain ⟨lead, pad, hlead, hpad, -, hplace⟩ := h.exists_padding hrun
  rcases hplace with ⟨more, rfl, rfl⟩ | ⟨more, rfl, rfl⟩
  · obtain ⟨hbefore, hmore⟩ := isRun_append.1 hlead
    refine ⟨before ++ (w ++ more), pad,
      isRun_append.2 ⟨hbefore, isRun_append.2 ⟨hw, hmore⟩⟩, hpad, ?_⟩
    simp only [List.append_assoc]
  · obtain ⟨hmore, hafter⟩ := isRun_append.1 hpad
    refine ⟨lead, more ++ (w ++ after), hlead,
      isRun_append.2 ⟨hmore, isRun_append.2 ⟨hw, hafter⟩⟩, ?_⟩
    simp only [List.append_assoc]

/-- The white space does not come into a tag or a list: only within brackets do these go over the
end of a line. -/
theorem Spaced.skip_run (h : Spaced w b (run ++ rest) cs') (hrun : Covers kind run)
    (hkind : kind ≠ .braced) (hclear : Clear b (Fragment.ofRun run rest).span) :
    ∃ rest', Spaced w b rest rest' ∧ cs' = run ++ rest' := by
  rcases h.cases with ⟨before, after, hfeed, hcut, rfl, -⟩ | hrest
  · exfalso
    obtain ⟨lead, pad, hlead, hpad, hwhole, hplace⟩ := hclear.exists_padding hcut
    have hitems : Covers kind (lead ++ (trim run ++ pad)) := hwhole ▸ hrun
    have hfeedLead : '\n' ∉ lead := (hitems.white_prefix hlead).newline_not_mem hkind hlead
    have hfeedPad : '\n' ∉ pad :=
      ((hitems.of_white_append hlead).of_append hrun.trim).newline_not_mem hkind hpad
    rcases hplace with ⟨more, rfl, -⟩ | ⟨more, rfl, rfl⟩
    · exact hfeedLead (List.mem_append_left more hfeed.mem)
    · -- The line feed would be the last character of one of the three parts.
      by_cases hmore : more = []
      · subst hmore
        rw [List.append_nil] at hfeed
        by_cases hpiece : trim run = []
        · rw [hpiece, List.append_nil] at hfeed
          exact hfeedLead hfeed.mem
        · have hlast := hfeed.of_suffix (List.suffix_append lead (trim run)) hpiece
          exact hlast.trim_ne (trim_trim run)
      · have hlast := hfeed.of_suffix (List.suffix_append_of_suffix (List.suffix_append _ _)) hmore
        exact hfeedPad (List.mem_append_left after hlast.mem)
  · exact hrest

/-- In an output, the white space comes to that around the expression. -/
theorem ReadsOutput.respace (h : ReadsOutput cs x rest) (hspaced : Spaced w b cs cs')
    (hrest : rest <:+ b) (hclear : Clear b x.span) (hw : IsRun isWhiteSpace w) :
    ∃ y, ReadsOutput cs' y rest ∧ y.value = x.value := by
  obtain @⟨run, rest, hrun, hvalue⟩ := h
  obtain ⟨inner, hinner, rfl⟩ := hspaced.skip ['\x7b'] (by decide)
  rcases hinner.cases with ⟨before, after, -, hcut, rfl, rfl⟩ | ⟨close, hclose, rfl⟩
  · obtain ⟨lead, pad, hlead, hpad, hwhole⟩ := hclear.exists_white_around hcut hw
    have hitems : Covers .braced (lead ++ (trim run ++ pad)) :=
      (covers_white hlead).append (hrun.trim.append (covers_white hpad))
    have htrim : trim (lead ++ (trim run ++ pad)) = trim run :=
      trim_pad hlead hpad (trim_trim run)
    have hread : ReadsOutput ('\x7b' :: ((lead ++ (trim run ++ pad)) ++ '\x7d' :: rest)) _ rest :=
      .mk hitems (by rw [htrim]; exact hvalue)
    rw [← hwhole] at hread
    simp only [List.append_assoc] at hread
    refine ⟨_, hread, ?_⟩
    rw [Fragment.value_ofRun, hwhole, htrim, Fragment.value_ofRun]
  · obtain ⟨stop, hstop, -⟩ := hclose.skip ['\x7d'] (by decide)
    exact absurd hrest hstop.not_suffix

theorem IsLineEnd.eq_nil_of_feed {before after : List Char} (h : IsLineEnd (before ++ after))
    (hfeed : EndsInFeed before) : after = [] := by
  have hsingle : ∀ before, EndsInFeed before → before ++ after = ['\n'] → after = [] := by
    intro before hfeed h
    rcases List.append_eq_cons_iff.1 h with ⟨rfl, -⟩ | ⟨more, rfl, hnil⟩
    · exact absurd rfl hfeed.ne_nil
    · exact (List.append_eq_nil_iff.1 hnil.symm).2
  rcases h with h | h
  · exact hsingle before hfeed h
  · rcases List.append_eq_cons_iff.1 h with ⟨rfl, -⟩ | ⟨more, rfl, hmore⟩
    · exact absurd rfl hfeed.ne_nil
    · exact hsingle more (hfeed.of_cons (by decide)) hmore.symm

/-- The white space comes to the start of the block of a switch or further behind. -/
theorem ReadsSwitchHeader.respace (h : ReadsSwitchHeader cs x block) (hspaced : Spaced w b cs cs')
    (hclear : Clear b x.span) :
    ∃ block', (b = block ∧ block' = w ++ block ∨ Spaced w b block block') ∧
      ∃ y, ReadsSwitchHeader cs' y block' ∧ y.value = x.value := by
  obtain @⟨gap, run, pad, lineEnd, block, hgap, hstart, hrun, hpad, hend⟩ := h
  obtain ⟨_, hword, rfl⟩ := hspaced.skip (Keyword.spaced Keyword.switch) (by decide)
  obtain ⟨_, hblanks, rfl⟩ := hword.skip _ (newline_not_mem_of_blank hgap)
  obtain ⟨_, htag, rfl⟩ := hblanks.skip_run hrun nofun hclear
  obtain ⟨_, hbrace, rfl⟩ := htag.skip ['\x7b'] (by decide)
  obtain ⟨_, hline, rfl⟩ := hbrace.skip _ (newline_not_mem_of_blank hpad)
  rcases hline.cases with ⟨before, after, hfeed, rfl, rfl, rfl⟩ | ⟨block', hblock, rfl⟩
  · obtain rfl := hend.eq_nil_of_feed hfeed
    rw [List.append_nil] at hend ⊢
    exact ⟨_, .inl ⟨rfl, rfl⟩, _, .mk hgap hstart hrun hpad hend, rfl⟩
  · exact ⟨block', .inr hblock, _, .mk hgap hstart hrun hpad hend, rfl⟩

/-- The white space comes behind the header of a clause. -/
theorem ReadsClauseHeader.respace (h : ReadsClauseHeader cs header rest)
    (hspaced : Spaced w b cs cs') (hclear : ∀ x ∈ header.expressions, Clear b x.2.span) :
    ∃ rest', Spaced w b rest rest' ∧ ∃ header', ReadsClauseHeader cs' header' rest' ∧
      header'.map (fun _ => ()) = header.map fun _ => () := by
  cases h with
  | @case gap run rest hgap hne hstart hrun =>
    obtain ⟨_, hword, rfl⟩ := hspaced.skip (Keyword.spaced Keyword.case) (by decide)
    obtain ⟨_, hblanks, rfl⟩ := hword.skip _ (newline_not_mem_of_blank hgap)
    obtain ⟨_, hlist, rfl⟩ := hblanks.skip_run hrun nofun (hclear _ (List.mem_singleton_self _))
    obtain ⟨rest', hcolon, rfl⟩ := hlist.skip [':'] (by decide)
    exact ⟨rest', hcolon, _, .case hgap hne hstart hrun, rfl⟩
  | @default pad rest hpad =>
    obtain ⟨_, hword, rfl⟩ := hspaced.skip Keyword.default (by decide)
    obtain ⟨_, hblanks, rfl⟩ := hword.skip _ (newline_not_mem_of_blank hpad)
    obtain ⟨rest', hcolon, rfl⟩ := hblanks.skip [':'] (by decide)
    exact ⟨rest', hcolon, _, .default hpad, rfl⟩

/-! ## Nodes, bodies and clauses -/

mutual

/-- With the white space in it, a node is read as before. -/
theorem ReadsNode.respace (hw : IsRun isWhiteSpace w) :
    ∀ {depth lineStart cs node rest cs'}, ReadsNode o depth lineStart cs node rest →
      Spaced w b cs cs' → rest <:+ b → (∀ x ∈ node.expressions, Clear b x.2.span) →
      ∃ node', ReadsNode o depth lineStart cs' node' rest ∧
        node'.map (fun _ => ()) = node.map fun _ => ()
  | _, _, _, _, _, _, .text hcontent _, hspaced, hrest, _ => by
    obtain @⟨run, rest, -, -, hrun, -⟩ := hcontent
    have hline : '\n' ∉ run := fun hmem => nomatch hrun '\n' hmem
    obtain ⟨_, hbehind, -⟩ := hspaced.skip _ hline
    exact absurd hrest hbehind.not_suffix
  | _, _, _, _, _, _, .output hexpression, hspaced, hrest, hclear => by
    obtain ⟨expression', hexpression', hvalue⟩ :=
      hexpression.respace hspaced hrest (hclear _ (List.mem_singleton_self _)) hw
    exact ⟨_, .output hexpression', congrArg Node.output (Fragment.shape_eq hvalue)⟩
  | _, _, _, _, _, _, .fallthrough _ _ hkeyword, hspaced, hrest, _ => by
    obtain @⟨pad, rest, hpad, -⟩ := hkeyword
    obtain ⟨_, hword, -⟩ := hspaced.skip Keyword.fallthrough (by decide)
    obtain ⟨_, hblanks, -⟩ := hword.skip _ (newline_not_mem_of_blank hpad)
    exact absurd hrest hblanks.not_suffix
  | _, _, _, _, _, _, .switch hline hheader hlimit hclauses hfinal, hspaced, hrest, hclear => by
    obtain ⟨block', hblock, tag', htag', hvalue⟩ :=
      hheader.respace hspaced (hclear _ List.mem_cons_self)
    obtain ⟨clauses', hclauses', hshape⟩ : ∃ clauses', ReadsClauses o _ block' clauses' _ ∧
        Clause.mapAll (fun _ => ()) clauses' = Clause.mapAll (fun _ => ()) _ := by
      rcases hblock with ⟨-, rfl⟩ | hspaced
      · exact ⟨_, (readsClauses_gap_iff hw).2 hclauses, rfl⟩
      · exact hclauses.respace hw hspaced hrest fun x hx => hclear x (List.mem_cons_of_mem _ hx)
    have hfinal' : o.enforced (finalFallthrough? clauses') = none :=
      Options.enforced_eq_none_of_iff (finalFallthrough?_eq_none_of_shape hshape) hfinal
    exact ⟨_, .switch hline htag' hlimit hclauses' hfinal', Node.shape_switch_eq hvalue hshape⟩

/-- A body is read as before if white space is put behind a line feed in it, outside of
expressions. -/
theorem ReadsBody.respace (hw : IsRun isWhiteSpace w) :
    ∀ {depth lineStart cs nodes rest cs'}, ReadsBody o depth lineStart cs nodes rest →
      Spaced w b cs cs' → rest <:+ b → (∀ x ∈ Template.expressions nodes, Clear b x.2.span) →
      ∃ nodes', ReadsBody o depth lineStart cs' nodes' rest ∧
        Template.shape nodes' = Template.shape nodes
  | _, _, _, _, _, _, @ReadsBody.done _ _ _ gap _ hgap hend, hspaced, hrest, _ => by
    rcases hspaced.cases_gap hgap hw with ⟨gap', hgap', hline, rfl⟩ | ⟨_, hbehind, -⟩
    · rw [← hline] at hend
      exact ⟨[], .done hgap' hend, rfl⟩
    · exact absurd hrest hbehind.not_suffix
  | _, _, _, _, _, _, @ReadsBody.node _ _ _ gap _ _ mid _ _ hgap hmore hnode hnodes, hspaced,
      hrest, hclear => by
    rcases hspaced.cases_gap hgap hw with ⟨gap', hgap', hline, rfl⟩ | ⟨_, hbehind, rfl⟩
    · rw [← hline] at hmore hnode
      exact ⟨_, .node hgap' hmore hnode hnodes, rfl⟩
    · have hmore' := mt hbehind.alike.endsBody_iff.2 hmore
      -- The white space comes into the node or behind it, where the node does not see it.
      by_cases hmid : mid <:+ b
      · obtain ⟨node', hnode', hshape⟩ :=
          hnode.respace hw hbehind hmid fun x hx => hclear x (List.mem_append_left _ hx)
        exact ⟨_, .node hgap hmore' hnode' hnodes, Template.shape_cons_eq hshape rfl⟩
      · obtain ⟨front, rfl, hmove⟩ := hnode.relocate
        obtain ⟨mid', hspaced', rfl⟩ := hbehind.behind hmid
        obtain ⟨-, node', hnode', hnodeShape⟩ := hmove mid' hspaced'.alike
        obtain ⟨nodes', hnodes', hshape⟩ :=
          hnodes.respace hw hspaced' hrest fun x hx => hclear x (List.mem_append_right _ hx)
        exact ⟨_, .node hgap hmore' hnode' hnodes', Template.shape_cons_eq hnodeShape hshape⟩

/-- The clauses of a block are read as before if white space is put behind a line feed in them,
outside of expressions. -/
theorem ReadsClauses.respace (hw : IsRun isWhiteSpace w) :
    ∀ {depth cs clauses rest cs'}, ReadsClauses o depth cs clauses rest →
      Spaced w b cs cs' → rest <:+ b → (∀ x ∈ Clause.expressions clauses, Clear b x.2.span) →
      ∃ clauses', ReadsClauses o depth cs' clauses' rest ∧
        Clause.mapAll (fun _ => ()) clauses' = Clause.mapAll (fun _ => ()) clauses
  | _, _, _, _, _, @ReadsClauses.done _ _ gap _ hgap, hspaced, hrest, _ => by
    rcases hspaced.cases_gap hgap hw with ⟨gap', hgap', -, rfl⟩ | ⟨_, hbehind, -⟩
    · exact ⟨[], .done hgap', rfl⟩
    · obtain ⟨_, hclose, -⟩ := hbehind.skip ['\x7d'] (by decide)
      exact absurd hrest hclose.not_suffix
  | _, _, _, _, _, @ReadsClauses.clause _ _ gap _ _ _ _ stop _ _ hgap hheader hbody hearly hclauses,
      hspaced, hrest, hclear => by
    rcases hspaced.cases_gap hgap hw with ⟨gap', hgap', -, rfl⟩ | ⟨_, hbehind, rfl⟩
    · exact ⟨_, .clause hgap' hheader hbody hearly hclauses, rfl⟩
    · obtain ⟨mid', hmid', header', hheader', hheaderShape⟩ :=
        hheader.respace hbehind fun x hx => hclear x (List.mem_append_left _ hx)
      by_cases hstop : stop <:+ b
      · obtain ⟨children', hchildren', hshape⟩ := hbody.respace hw hmid' hstop fun x hx =>
          hclear x (List.mem_append_right _ (List.mem_append_left _ hx))
        have hearly' : o.enforced (earlyFallthrough? children') = none :=
          Options.enforced_eq_none_of_iff (earlyFallthrough?_eq_none_of_shape hshape) hearly
        exact ⟨_, .clause hgap hheader' hchildren' hearly' hclauses,
          Clause.shape_cons_eq hheaderShape hshape rfl⟩
      · obtain ⟨front, rfl, hmove⟩ := hbody.relocate
        obtain ⟨stop', hstop', rfl⟩ := hmid'.behind hstop
        obtain ⟨-, children', hchildren', hbodyShape⟩ := hmove stop' hstop'.alike
        obtain ⟨clauses', hclauses', hshape⟩ := hclauses.respace hw hstop' hrest fun x hx =>
          hclear x (List.mem_append_right _ (List.mem_append_right _ hx))
        have hearly' : o.enforced (earlyFallthrough? children') = none :=
          Options.enforced_eq_none_of_iff (earlyFallthrough?_eq_none_of_shape hbodyShape) hearly
        exact ⟨_, .clause hgap hheader' hchildren' hearly' hclauses',
          Clause.shape_cons_eq hheaderShape hbodyShape hshape⟩

end

/-! ## Parses -/

/-- The offset is strictly inside of the stretch. -/
def Span.Encloses (s : Span Position) (offset : Nat) : Prop :=
  s.start.index < offset ∧ offset < s.stop.index

instance (s : Span Position) (offset : Nat) : Decidable (s.Encloses offset) :=
  inferInstanceAs (Decidable (_ ∧ _))

/-- Of two ends of a text, the one with no more bytes in front of it is the longer one. -/
theorem suffix_of_byteLength_le {before after back : List Char}
    (h : before ++ after = front ++ back) (hle : byteLength before ≤ byteLength front) :
    back <:+ after := by
  rcases List.append_eq_append_iff.1 h with ⟨more, rfl, rfl⟩ | ⟨more, rfl, rfl⟩
  · exact List.suffix_append more back
  · cases more with
    | nil => exact List.suffix_rfl
    | cons c more =>
      have hpos : 0 < c.utf8Size := c.utf8Size_pos
      rw [byteLength_append, byteLength_cons] at hle
      omega

/-- A place that is not strictly inside of a stretch is in front of it or behind it. -/
theorem clear_of_not_encloses {source : String} {s : Span (List Char)} {back : List Char}
    (hsource : front ++ back = source.toList) (hstart : s.start <:+ source.toList)
    (hstop : s.stop <:+ s.start)
    (h : ¬(s.map (Source.ofString source).placeBefore).Encloses (byteLength front)) :
    Clear back s := by
  obtain ⟨before, hbefore⟩ := hstart
  obtain ⟨inner, hinner⟩ := hstop
  have hend : before ++ inner ++ s.stop = source.toList := by
    rw [List.append_assoc, hinner, hbefore]
  rw [Span.Encloses, Span.map, Source.index_placeBefore before s.start hbefore,
    Source.index_placeBefore (before ++ inner) s.stop hend] at h
  by_cases hlt : byteLength before < byteLength front
  · refine .inr (suffix_of_byteLength_le (hend.trans hsource.symm) ?_)
    exact Nat.le_of_not_lt fun hinside => h ⟨hlt, hinside⟩
  · exact .inl (suffix_of_byteLength_le (hsource.trans hbefore.symm) (Nat.le_of_not_lt hlt))

/-- White space at the start of a line that is not strictly inside of an expression has no meaning:
with any other white space put there, the same template is read. -/
theorem parse_insertWhite (front back white : String) (o : Options) (t : Template Position)
    (h : parse (front ++ back) o = .ok t)
    (hline : front = "" ∨ front.toList.getLast? = some '\n')
    (houtside : ∀ x ∈ Template.expressions t, ¬x.2.span.Encloses (byteLength front.toList))
    (hwhite : IsRun isWhiteSpace white.toList) :
    ∃ u, parse (front ++ white ++ back) o = .ok u ∧ Template.shape u = Template.shape t := by
  obtain ⟨nodes, hbody, rfl⟩ := parse_eq_ok_iff.1 h
  have hsource : front.toList ++ back.toList = (front ++ back).toList := String.toList_append.symm
  have hclear : ∀ x ∈ Template.expressions nodes, Clear back.toList x.2.span := by
    rintro ⟨kind, x⟩ hx
    have hleaf := Template.span_mem_leaves nodes hx
    refine clear_of_not_encloses hsource (hbody.tiles_leaves.mem hleaf).1
      (hbody.tiles_leaves.stop_suffix hleaf) ?_
    have hmem := List.mem_map_of_mem
      (f := Prod.map id (Fragment.map (Source.ofString (front ++ back)).placeBefore)) hx
    rw [← Template.expressions_map] at hmem
    exact houtside _ hmem
  rw [exists_parse_eq_ok_iff, String.toList_append, String.toList_append, List.append_assoc,
    Template.shape_map]
  rw [← hsource] at hbody
  rcases hline with rfl | hfeed
  · exact ⟨nodes, (readsBody_gap_iff hwhite).2 hbody, rfl⟩
  · exact hbody.respace hwhite ⟨front.toList, hfeed, rfl, rfl⟩ List.nil_suffix hclear

/-- A line with a wide space in it comes into an output that goes over several lines. -/
theorem parse_insertWhite_output :
    ∃ u, parse ("switch x \x7b\ncase 1:\n\x7b f(\n1)\n" ++ "\n\u3000\n\t" ++ "\x7d\n\x7d") = .ok u ∧
      Template.shape u = [.switch ⟨"x", ⟨(), ()⟩⟩
        [⟨.case ⟨"1", ⟨(), ()⟩⟩, [.output ⟨"f(\n1)", ⟨(), ()⟩⟩]⟩] ⟨(), ()⟩] := by
  have hparse : parse ("switch x \x7b\ncase 1:\n\x7b f(\n1)\n" ++ "\x7d\n\x7d") = .ok [
      .switch ⟨"x", ⟨⟨7, 1, 8⟩, ⟨8, 1, 9⟩⟩⟩
        [⟨.case ⟨"1", ⟨⟨16, 2, 6⟩, ⟨17, 2, 7⟩⟩⟩, [
          .output ⟨"f(\n1)", ⟨⟨21, 3, 3⟩, ⟨26, 4, 3⟩⟩⟩]⟩]
        ⟨⟨0, 1, 1⟩, ⟨30, 6, 2⟩⟩] := by
    decide +kernel
  exact parse_insertWhite "switch x \x7b\ncase 1:\n\x7b f(\n1)\n" "\x7d\n\x7d" "\n\u3000\n\t" {} _
    hparse (.inr (by decide)) (by decide) (by decide)

end SwitchMarkup

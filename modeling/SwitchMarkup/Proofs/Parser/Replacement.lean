import SwitchMarkup.Proofs.Grammar.Headers
import SwitchMarkup.Proofs.Grammar.Lines
import SwitchMarkup.Proofs.Grammar.Locality
import SwitchMarkup.Proofs.Grammar.Run
import SwitchMarkup.Proofs.Source.Lines
import SwitchMarkup.Proofs.Template.Expressions
import SwitchMarkup.Template.Equality

/-!
# Other expressions in the same places

An expression is read as far as its items go, and what surrounds it is not looked at before. So the
stretch of any expression of a template may be filled with another legal one of its kind, whatever
quotes, brackets, keywords and line ends that holds: the source is read with the new text in the
place of the old one, and all else is the same. Main statement: `parse_replaceSpan`.
-/

namespace SwitchMarkup

open Items

variable {o : Options} {kind : Kind} {v : String} {cs cs' pad rest run : List Char}
  {x : Fragment (List Char)}

/-! ## Texts with another expression -/

/-- The second text has `v` in the stretch of `x` and is the first one otherwise. -/
structure Rewritten (x : Fragment (List Char)) (v : String) (cs cs' : List Char) : Prop where
  exists_front : ∃ front, cs = front ++ x.span.start ∧ cs' = front ++ (v.toList ++ x.span.stop)
  stop_suffix : x.span.stop <:+ x.span.start

theorem Rewritten.append (h : Rewritten x v cs cs') (front : List Char) :
    Rewritten x v (front ++ cs) (front ++ cs') := by
  obtain ⟨⟨inner, rfl, rfl⟩, hstop⟩ := h
  exact ⟨⟨front ++ inner, (List.append_assoc ..).symm, (List.append_assoc ..).symm⟩, hstop⟩

/-- A legal expression of a kind that may stand for one of them: only a tag may be empty. -/
structure Items.Fills (kind : Kind) (v : String) : Prop where
  legal : Items.Legal kind v
  nonempty : kind = .tag ∨ v ≠ ""

/-- The white space around a piece may be kept around another one. -/
theorem exists_rewritten_ofRun (h : Covers kind run) (hv : Items.Legal kind v)
    (rest : List Char) :
    ∃ run', Rewritten (.ofRun run rest) v (run ++ rest) (run' ++ rest) ∧ Covers kind run' ∧
      String.ofList (trim run') = v ∧ (Stops isBlank run → v ≠ "" → Stops isBlank run') ∧
      (run' = [] → v = "") := by
  obtain ⟨lead, pad, hlead, hpad, hrun, hspan⟩ := Fragment.exists_span_ofRun run rest
  have hcut : Covers kind (lead ++ (trim run ++ pad)) := hrun ▸ h
  have hcoversPad : Covers kind pad := (hcut.of_white_append hlead).of_append h.trim
  -- the new piece keeps the white space on both sides of its value
  refine ⟨lead ++ (v.toList ++ pad), ⟨⟨lead, ?_, ?_⟩, ?_⟩,
    (hcut.white_prefix hlead).append (hv.covers.append hcoversPad), hv.trim_pad hlead hpad, ?_, ?_⟩
  · rw [hspan]
    have hwhole := congrArg (· ++ rest) hrun
    simp only [List.append_assoc] at hwhole
    exact hwhole
  · rw [hspan]
    simp only [List.append_assoc]
  · rw [hspan]
    exact List.suffix_append _ _
  · intro hstart hne
    cases lead with
    | nil =>
      obtain ⟨c, value, hvalue⟩ := List.exists_cons_of_ne_nil (mt String.toList_eq_nil_iff.1 hne)
      have hstops := stops_isBlank_of_stops hv.stops
      rw [hvalue] at hstops
      rw [List.nil_append, hvalue]
      exact stops_cons.2 (stops_cons.1 hstops)
    | cons c lead =>
      rw [hrun] at hstart
      exact stops_cons.2 (stops_cons.1 hstart)
  · intro hnil
    have hvalue : v.toList = [] :=
      (List.append_eq_nil_iff.1 (List.append_eq_nil_iff.1 hnil).2).1
    exact String.toList_eq_nil_iff.1 hvalue

/-- Another expression can stand in the same braces. -/
theorem ReadsOutput.replace (h : ReadsOutput cs x rest) (hv : Items.Fills .braced v) :
    ∃ cs', Rewritten x v cs cs' ∧ Alike cs cs' ∧ ∃ y, ReadsOutput cs' y rest ∧ y.value = v := by
  obtain @⟨run, rest, hrun, -⟩ := h
  obtain ⟨run', hrewritten, hrun', hvalue, -, -⟩ :=
    exists_rewritten_ofRun hrun hv.legal ('\x7d' :: rest)
  refine ⟨'\x7b' :: (run' ++ '\x7d' :: rest), hrewritten.append ['\x7b'],
    alike_cons (by decide) (by decide) _ _, _, .mk hrun' ?_, hvalue⟩
  intro hnil
  rw [hnil] at hvalue
  exact hv.nonempty.elim nofun fun hne => hne hvalue.symm

/-- A tag that begins with blanks begins behind them. -/
theorem exists_readsSwitchHeader {gap lineEnd : List Char} (hgap : IsRun isBlank gap)
    (hrun : Covers .tag run) (hpad : IsRun isBlank pad) (hend : IsLineEnd lineEnd)
    (rest : List Char) :
    ∃ tag, ReadsSwitchHeader
        (Keyword.spaced Keyword.switch ++ (gap ++ (run ++ '\x7b' :: (pad ++ (lineEnd ++ rest)))))
        tag rest ∧ tag.value = String.ofList (trim run) := by
  obtain ⟨blanks, tag, rfl, hblanks, htag⟩ :
      ∃ blanks tag, run = blanks ++ tag ∧ IsRun isBlank blanks ∧ Stops isBlank tag :=
    ⟨_, _, List.takeWhile_append_dropWhile.symm, isRun_takeWhile isBlank run,
      stops_dropWhile isBlank run⟩
  have hwhite : IsRun isWhiteSpace blanks := hblanks.mono fun _ => isWhiteSpace_of_isBlank
  have hread : ReadsSwitchHeader (Keyword.spaced Keyword.switch ++
      ((gap ++ blanks) ++ (tag ++ '\x7b' :: (pad ++ (lineEnd ++ rest))))) _ rest :=
    .mk (isRun_append.2 ⟨hgap, hblanks⟩) htag (hrun.of_white_append hwhite) hpad hend
  rw [← Fragment.ofRun_white_append hwhite] at hread
  simp only [List.append_assoc] at hread ⊢
  exact ⟨_, hread, rfl⟩

/-- Another tag can stand in the same header. -/
theorem ReadsSwitchHeader.replace (h : ReadsSwitchHeader cs x rest) (hv : Items.Fills .tag v) :
    ∃ cs', Rewritten x v cs cs' ∧ Alike cs cs' ∧
      ∃ y, ReadsSwitchHeader cs' y rest ∧ y.value = v := by
  obtain @⟨gap, run, pad, lineEnd, rest, hgap, -, hrun, hpad, hend⟩ := h
  obtain ⟨run', hrewritten, hrun', hvalue, -, -⟩ :=
    exists_rewritten_ofRun hrun hv.legal ('\x7b' :: (pad ++ (lineEnd ++ rest)))
  obtain ⟨tag, hread, htag⟩ := exists_readsSwitchHeader hgap hrun' hpad hend rest
  exact ⟨_, (hrewritten.append gap).append (Keyword.spaced Keyword.switch),
    alike_cons (by decide) (by decide) _ _, tag, hread, htag.trans hvalue⟩

/-- Another list can stand in the same header. -/
theorem ReadsClauseHeader.replace (h : ReadsClauseHeader cs (.case x) rest)
    (hv : Items.Fills .list v) :
    ∃ cs', Rewritten x v cs cs' ∧ Alike cs cs' ∧
      ∃ y, ReadsClauseHeader cs' (.case y) rest ∧ y.value = v := by
  have hopens := h.opensClause
  obtain @⟨gap, run, rest, hgap, -, hstart, hrun⟩ := h
  have hne : v ≠ "" := hv.nonempty.elim nofun id
  obtain ⟨run', hrewritten, hrun', hvalue, hstart', hnil⟩ :=
    exists_rewritten_ofRun hrun hv.legal (':' :: rest)
  have hread : ReadsClauseHeader
      (Keyword.spaced Keyword.case ++ (gap ++ (run' ++ ':' :: rest))) _ rest :=
    .case hgap (mt hnil hne) (hstart' hstart hne) hrun'
  exact ⟨_, (hrewritten.append gap).append (Keyword.spaced Keyword.case),
    alike_of_opens rfl hopens hread.opensClause, _, hread, hvalue⟩

/-! ## Nodes, bodies and clauses -/

mutual

/-- Where one expression of a node has another text, a text that has it, too, is read as that
node. -/
theorem ReadsNode.replace :
    ∀ {kind} {x : Fragment (List Char)} {depth lineStart cs node node' rest},
      ReadsNode o depth lineStart cs node rest → Node.Replaces v kind x node node' →
      Items.Fills kind v →
      ∃ cs', Rewritten x v cs cs' ∧ Alike cs cs' ∧
        ∃ read, ReadsNode o depth lineStart cs' read rest ∧
          read.map (fun _ => ()) = node'.map fun _ => ()
  | _, _, _, _, _, _, _, _, .output hexpression, .output, hv => by
    obtain ⟨cs', hrewritten, halike, y, hy, rfl⟩ := hexpression.replace hv
    exact ⟨cs', hrewritten, halike, .output y, .output hy, rfl⟩
  | _, _, _, _, _, _, _, _, .switch hline hheader hlimit hclauses hfinal, .tag, hv => by
    obtain ⟨cs', hrewritten, halike, y, hy, rfl⟩ := hheader.replace hv
    exact ⟨cs', hrewritten, halike, _, .switch hline hy hlimit hclauses hfinal, rfl⟩
  | _, _, _, _, _, _, _, _, .switch hline hheader hlimit hclauses hfinal, .clauses h, hv => by
    obtain ⟨front, rfl, hmove⟩ := hheader.relocate
    obtain ⟨block', hrewritten, -, clauses', hclauses', hshape⟩ := hclauses.replace h hv
    obtain ⟨halike, tag', htag', hvalue⟩ := hmove block'
    have hfinal' : o.enforced (finalFallthrough? clauses') = none := by
      refine Options.enforced_eq_none_of_iff (finalFallthrough?_eq_none_of_shape hshape) ?_
      rw [h.finalFallthrough?]
      exact hfinal
    exact ⟨front ++ block', hrewritten.append front, halike, _,
      .switch hline htag' hlimit hclauses' hfinal', Node.shape_switch_eq hvalue hshape⟩

/-- An expression somewhere in a body can be replaced there. -/
theorem ReadsBody.replace :
    ∀ {kind} {x : Fragment (List Char)} {depth lineStart cs nodes nodes' rest},
      ReadsBody o depth lineStart cs nodes rest → Template.Replaces v kind x nodes nodes' →
      Items.Fills kind v →
      ∃ cs', Rewritten x v cs cs' ∧ Alike cs cs' ∧
        ∃ reads, ReadsBody o depth lineStart cs' reads rest ∧
          Template.shape reads = Template.shape nodes'
  | _, _, _, _, _, _, _, _, @ReadsBody.node _ _ _ gap _ _ _ _ _ hgap hmore hnode hnodes,
      .head h, hv => by
    obtain ⟨cs', hrewritten, halike, read, hread, hshape⟩ := hnode.replace h hv
    exact ⟨gap ++ cs', hrewritten.append gap, halike.behind_gap hgap, _,
      .node hgap (mt halike.endsBody_iff.2 hmore) hread hnodes,
      Template.shape_cons_eq hshape rfl⟩
  | _, _, _, _, _, _, _, _, @ReadsBody.node _ _ _ gap _ _ _ _ _ hgap hmore hnode hnodes,
      .tail h, hv => by
    obtain ⟨front, rfl, hmove⟩ := hnode.relocate
    obtain ⟨mid', hrewritten, hmid, reads, hreads, hshape⟩ := hnodes.replace h hv
    obtain ⟨halike, read, hread, hnodeShape⟩ := hmove mid' hmid
    exact ⟨gap ++ (front ++ mid'), (hrewritten.append front).append gap, halike.behind_gap hgap, _,
      .node hgap (mt halike.endsBody_iff.2 hmore) hread hreads,
      Template.shape_cons_eq hnodeShape hshape⟩

/-- An expression somewhere in the clauses of a block can be replaced there. -/
theorem ReadsClauses.replace :
    ∀ {kind} {x : Fragment (List Char)} {depth cs clauses clauses' rest},
      ReadsClauses o depth cs clauses rest → Clause.Replaces v kind x clauses clauses' →
      Items.Fills kind v →
      ∃ cs', Rewritten x v cs cs' ∧ Alike cs cs' ∧ ∃ reads, ReadsClauses o depth cs' reads rest ∧
        Clause.mapAll (fun _ => ()) reads = Clause.mapAll (fun _ => ()) clauses'
  | _, _, _, _, _, _, _,
      @ReadsClauses.clause _ _ gap _ _ _ _ _ _ _ hgap hheader hbody hearly hclauses,
      .list, hv => by
    obtain ⟨cs', hrewritten, halike, y, hy, rfl⟩ := hheader.replace hv
    exact ⟨gap ++ cs', hrewritten.append gap, halike.behind_gap hgap, _,
      .clause hgap hy hbody hearly hclauses, rfl⟩
  | _, _, _, _, _, _, _,
      @ReadsClauses.clause _ _ gap _ _ _ _ _ _ _ hgap hheader hbody hearly hclauses,
      .children h, hv => by
    obtain ⟨front, rfl, hmove⟩ := hheader.relocate
    obtain ⟨mid', hrewritten, -, reads, hreads, hshape⟩ := hbody.replace h hv
    obtain ⟨halike, header', hheader', hheaderShape⟩ := hmove mid'
    have hearly' : o.enforced (earlyFallthrough? reads) = none := by
      refine Options.enforced_eq_none_of_iff (earlyFallthrough?_eq_none_of_shape hshape) ?_
      rw [h.earlyFallthrough?]
      exact hearly
    exact ⟨gap ++ (front ++ mid'), (hrewritten.append front).append gap, halike.behind_gap hgap, _,
      .clause hgap hheader' hreads hearly' hclauses,
      Clause.shape_cons_eq hheaderShape hshape rfl⟩
  | _, _, _, _, _, _, _,
      @ReadsClauses.clause _ _ gap _ _ _ _ _ _ _ hgap hheader hbody hearly hclauses,
      .tail h, hv => by
    obtain ⟨front, rfl, hmoveHeader⟩ := hheader.relocate
    obtain ⟨middle, rfl, hmoveBody⟩ := hbody.relocate
    obtain ⟨stop', hrewritten, hstop, reads, hreads, hshape⟩ := hclauses.replace h hv
    obtain ⟨-, children', hchildren', hbodyShape⟩ := hmoveBody stop' hstop
    obtain ⟨halike, header', hheader', hheaderShape⟩ := hmoveHeader (middle ++ stop')
    have hearly' : o.enforced (earlyFallthrough? children') = none :=
      Options.enforced_eq_none_of_iff (earlyFallthrough?_eq_none_of_shape hbodyShape) hearly
    exact ⟨gap ++ (front ++ (middle ++ stop')),
      ((hrewritten.append middle).append front).append gap, halike.behind_gap hgap, _,
      .clause hgap hheader' hchildren' hearly' hreads,
      Clause.shape_cons_eq hheaderShape hbodyShape hshape⟩

end

/-! ## Parses -/

/-- The source with a stretch of it replaced by another text. -/
def replaceSpan (source : String) (s : Span Position) (v : String) : String :=
  String.ofList (takeBytes s.start.index source.toList ++
    (v.toList ++ dropBytes s.stop.index source.toList))

theorem Rewritten.toList_replaceSpan {source : String} (h : Rewritten x v source.toList cs') :
    (replaceSpan source (x.map (Source.ofString source).placeBefore).span v).toList = cs' := by
  obtain ⟨⟨front, hfront, rfl⟩, hstop⟩ := h
  have hstart : x.span.start <:+ source.toList := ⟨front, hfront.symm⟩
  have htake : takeBytes (byteLength front) source.toList = front := by
    rw [hfront, takeBytes_append]
  rw [replaceSpan, String.toList_ofList, Fragment.map, Span.map,
    Source.index_placeBefore front x.span.start hfront.symm,
    Source.dropBytes_placeBefore (hstop.trans hstart), htake]

/-- The stretch of any tag, list or output of a template may be filled with another legal text. The
source is read with that text in its place, and all else is the same. -/
theorem parse_replaceSpan (source : String) (o : Options) (t : Template Position) (kind : Kind)
    (x : Fragment Position) (v : String) (h : parse source o = .ok t)
    (hx : (kind, x) ∈ Template.expressions t) (hv : Items.Fills kind v) :
    (∃ t', Template.Replaces v kind x t t') ∧
      ∀ t' : Template Position, Template.Replaces v kind x t t' →
        ∃ u, parse (replaceSpan source x.span v) o = .ok u ∧ u.shape = t'.shape := by
  refine ⟨Template.exists_replaces v t hx, fun t' ht' => ?_⟩
  obtain ⟨nodes, hbody, rfl⟩ := parse_eq_ok_iff.1 h
  obtain ⟨y, nodes', rfl, rfl, hnodes'⟩ := Template.exists_of_replaces_map _ nodes ht'
  obtain ⟨cs', hrewritten, -, reads, hreads, hshape⟩ := hbody.replace hnodes' hv
  rw [exists_parse_eq_ok_iff, hrewritten.toList_replaceSpan, Template.shape_map]
  exact ⟨reads, hreads, hshape⟩

/-- A brace in quotes, a line end in a bracket and a keyword in a raw literal come into an
output. -/
theorem parse_replaceSpan_quoted :
    ∃ u, parse "switch \x7b\ncase 1: \x7b f(\"\x7d\",\n\x60switch y\x60) \x7d\n\x7d" = .ok u ∧
      u.shape = [.switch ⟨"", ⟨(), ()⟩⟩
        [⟨.case ⟨"1", ⟨(), ()⟩⟩, [.output ⟨"f(\"\x7d\",\n\x60switch y\x60)", ⟨(), ()⟩⟩]⟩]
        ⟨(), ()⟩] := by
  have hparse : parse "switch \x7b\ncase 1: \x7b a \x7d\n\x7d" = .ok [
      .switch ⟨"", ⟨⟨7, 1, 8⟩, ⟨7, 1, 8⟩⟩⟩
        [⟨.case ⟨"1", ⟨⟨14, 2, 6⟩, ⟨15, 2, 7⟩⟩⟩, [
          .output ⟨"a", ⟨⟨19, 2, 11⟩, ⟨20, 2, 12⟩⟩⟩]⟩]
        ⟨⟨0, 1, 1⟩, ⟨24, 3, 2⟩⟩] := by
    decide +kernel
  have hlegal : Items.Legal .braced "f(\"\x7d\",\n\x60switch y\x60)" := by
    decide +kernel
  exact (parse_replaceSpan "switch \x7b\ncase 1: \x7b a \x7d\n\x7d" {} _ .braced
    ⟨"a", ⟨⟨19, 2, 11⟩, ⟨20, 2, 12⟩⟩⟩ "f(\"\x7d\",\n\x60switch y\x60)" hparse (by decide)
    ⟨hlegal, .inr (by decide)⟩).2 _ (.head (.clauses (.children (.head .output))))

end SwitchMarkup

import SwitchMarkup.Proofs.Grammar.Extraction
import SwitchMarkup.Proofs.Parser.Spans

/-!
# The lists of clauses

A `case` has at least one item in its list, but an item need not be seen: only spaces and tabs
belong to the header, and any other white space that keeps to its line is an item, which trimming
takes away again. So a list is empty in a template exactly if white space fills it (`FillsList`),
and all other white space in front of the colon is refused. Main statement: `parse_lists`.
-/

namespace SwitchMarkup

open Items

/-- White space that is read as a list: it keeps to its line and goes beyond spaces and tabs. -/
def FillsList (cs : List Char) : Prop :=
  IsRun isWhiteSpace cs ∧ IsRun (fun c => !isLineBreak c) cs ∧ ¬IsRun isBlank cs

instance (cs : List Char) : Decidable (FillsList cs) := inferInstanceAs (Decidable (_ ∧ _ ∧ _))

/-- The list of a clause is what the source has between a `case` with its space and a colon, and
begins behind the white space there. -/
structure Fragment.WrittenAs (source : String) (list : Fragment Position) (written : List Char) :
    Prop where
  value_eq : list.value = String.ofList (trim written)
  stands : ∃ front rest,
    front ++ (Keyword.spaced Keyword.case ++ (written ++ ':' :: rest)) = source.toList ∧
      list.span.start.index =
        byteLength (front ++ (Keyword.spaced Keyword.case ++ written.takeWhile isWhiteSpace))

variable {source : String} {around : List Frame} {block : Block} {t : Tail} {failure : Failure Nat}
  {cs gap run white rest : List Char} {list : Fragment (List Char)}

/-! ## White space in front of a colon -/

theorem keepsLine_of_blank (h : IsRun isBlank gap) : IsRun (fun c => !isLineBreak c) gap := by
  refine h.mono fun c hc => ?_
  rw [Bool.not_eq_true', Bool.eq_false_iff]
  intro hbreak
  rw [not_isBlank_of_isLineBreak hbreak] at hc
  cases hc

theorem covers_list_of_blank (h : IsRun isBlank gap) : Covers .list gap :=
  (covers_white_iff (by decide) (h.mono fun _ => isWhiteSpace_of_isBlank)).2 (keepsLine_of_blank h)

/-- What is written as a list is white space throughout only if it fills the list. -/
theorem isRun_iff_fillsList (hgap : IsRun isBlank gap) (hne : run ≠ []) (hstart : Stops isBlank run)
    (hrun : Covers .list run) :
    IsRun isWhiteSpace (gap ++ run) ↔ FillsList (gap ++ run) := by
  have hcovers := (covers_list_of_blank hgap).append hrun
  refine ⟨fun hwhite => ⟨hwhite, (covers_white_iff (by decide) hwhite).1 hcovers, ?_⟩, And.left⟩
  intro hblank
  obtain ⟨c, more, rfl⟩ := List.exists_cons_of_ne_nil hne
  have hc := (isRun_cons.1 (isRun_append.1 hblank).2).1
  rw [stops_cons.1 hstart] at hc
  cases hc

/-- A list goes up to the colon behind the white space that it begins with, if one stands there. -/
theorem Items.Covers.white_colon_inj {written rest' : List Char} (hcovers : Covers .list written)
    (hwhite : IsRun isWhiteSpace white) (h : white ++ ':' :: rest = written ++ ':' :: rest') :
    white = written ∧ rest = rest' := by
  obtain ⟨lead, more, rfl, hlead, hmore⟩ := exists_white_append written
  have hcolon : ∀ cs, Stops isWhiteSpace (':' :: cs) := fun cs => stops_cons.2 (by decide)
  rw [List.append_assoc] at h
  cases more with
  | nil =>
    obtain ⟨rfl, hrest⟩ := run_append_inj h hwhite (hcolon rest) hlead (hcolon rest')
    exact ⟨(List.append_nil white).symm, List.tail_eq_of_cons_eq hrest⟩
  | cons c more =>
    -- The first visible character of the list would be the colon.
    have hc : Stops isWhiteSpace (c :: more ++ ':' :: rest') := stops_cons.2 (stops_cons.1 hmore)
    obtain ⟨-, hrest⟩ := run_append_inj h hwhite (hcolon rest) hlead hc
    obtain rfl : ':' = c := List.head_eq_of_cons_eq hrest
    obtain ⟨_, hitem, -⟩ := covers_cons_iff.1 (hcovers.of_white_append hlead)
    cases hitem

/-- The value of a list is empty just where white space fills the list. -/
theorem ReadsClauseHeader.written (h : ReadsClauseHeader cs (.case list) rest)
    (hsource : cs <:+ source.toList) :
    ∃ written, (list.map (Source.ofString source).placeBefore).WrittenAs source written ∧
      (list.value = "" ↔ FillsList written) := by
  obtain ⟨front, hfront⟩ := hsource
  obtain @⟨gap, run, rest, hgap, hne, hstart, hrun⟩ := h
  have hlist := Fragment.ofRun_white_append (hgap.mono fun _ => isWhiteSpace_of_isBlank) run
    (':' :: rest)
  have hempty : String.ofList (trim (gap ++ run)) = "" ↔ FillsList (gap ++ run) := by
    rw [String.ofList_eq_empty_iff, trim_eq_nil_iff]
    exact isRun_iff_fillsList hgap hne hstart hrun
  rw [← List.append_assoc gap] at hfront
  rw [← hlist]
  generalize gap ++ run = written at hfront hempty
  refine ⟨written, ⟨rfl, front, rest, hfront, ?_⟩, hempty⟩
  refine Source.index_placeBefore _ (trimStart written ++ ':' :: rest) ?_
  rw [List.append_assoc, List.append_assoc, ← List.append_assoc (written.takeWhile _),
    takeWhile_append_trimStart, hfront]

/-! ## Refusals -/

/-- The extraction of a clause is only refused as an invalid expression. -/
theorem exists_of_extractCase_error (h : extractCase t = .error failure) :
    ∃ place expected, failure = ⟨place, .invalidExpression .case expected⟩ := by
  simp only [extractCase] at h
  split at h
  · split at h
    · cases h
      exact ⟨_, _, rfl⟩
    · split at h
      · cases h
      · cases h
        exact ⟨_, _, rfl⟩
  · split at h
    · cases h
    · cases h
      exact ⟨_, _, rfl⟩

/-- White space that fills a list is read as one up to the colon. -/
theorem readsClauseHeader_of_fillsList (rest : List Char) (h : FillsList white) :
    ReadsClauseHeader (Keyword.spaced Keyword.case ++ (white ++ ':' :: rest))
      (.case (.ofRun (white.dropWhile isBlank) (':' :: rest))) rest := by
  obtain ⟨hwhite, hline, hblank⟩ := h
  rw [← List.takeWhile_append_dropWhile (p := isBlank) (l := white), isRun_append] at hwhite hline
  have hrun : Covers .list (white.dropWhile isBlank) :=
    (covers_white_iff (by decide) hwhite.2).2 hline.2
  have hheader : ReadsClauseHeader (Keyword.spaced Keyword.case ++ (white.takeWhile isBlank ++
      (white.dropWhile isBlank ++ ':' :: rest))) _ rest :=
    .case (isRun_takeWhile isBlank white) (mt dropWhile_eq_nil_iff.1 hblank)
      (stops_dropWhile isBlank white) hrun
  rwa [← List.append_assoc (white.takeWhile isBlank), List.takeWhile_append_dropWhile] at hheader

/-- White space that is read as a list fills it. -/
theorem ReadsClauseHeader.fillsList {header : Header (List Char)}
    (h : ReadsClauseHeader (Keyword.spaced Keyword.case ++ (white ++ ':' :: rest)) header cs)
    (hwhite : IsRun isWhiteSpace white) : FillsList white := by
  generalize htext : Keyword.spaced Keyword.case ++ (white ++ ':' :: rest) = text at h
  cases h with
  | default => cases htext
  | case hgap hne hstart hrun =>
    rw [List.append_cancel_left_eq, ← List.append_assoc] at htext
    obtain ⟨rfl, -⟩ := ((covers_list_of_blank hgap).append hrun).white_colon_inj hwhite htext
    exact (isRun_iff_fillsList hgap hne hstart hrun).1 hwhite

/-- A clause begins behind white space and a colon with the empty list, or is refused. -/
theorem openClause_white (around : List Frame) (block : Block)
    (ht : t.chars = Keyword.spaced Keyword.case ++ (white ++ ':' :: rest))
    (hwhite : IsRun isWhiteSpace white) :
    (FillsList white → ∃ list u, list.value = "" ∧
      openClause around block t = .advance [] (.body (⟨block, .case list⟩ :: around) [] true) u) ∧
    (¬FillsList white → ∃ place expected,
      openClause around block t = .fail [] ⟨place, .invalidExpression .case expected⟩) := by
  have hfits : t.Fits (t.offset + byteLength t.chars) := rfl
  have hopens : OpensClause t.chars := .inl ⟨_, ht.symm⟩
  constructor
  · intro hfills
    have hheader := readsClauseHeader_of_fillsList rest hfills
    rw [← ht] at hheader
    obtain ⟨x, hx, hcase, -⟩ := hheader.extractCase hfits
    have hdefault := not_startsWith_default ⟨_, ht.symm⟩
    rw [clauseHeader, hdefault] at hcase
    have hlist : x.expression = _ := Header.case.inj hcase
    refine ⟨x.expression, x.rest.skipHeaderEnd, ?_, ?_⟩
    · have hdrop := hfills.1
      rw [← List.takeWhile_append_dropWhile (p := isBlank) (l := white), isRun_append] at hdrop
      rw [hlist]
      exact String.ofList_eq_empty_iff.2 (trim_eq_nil_iff.2 hdrop.2)
    · rw [openClause, hx]
      dsimp only
      rw [hdefault, if_neg Bool.false_ne_true]
  · intro hfills
    rw [openClause]
    cases hx : extractCase t with
    | error failure =>
      obtain ⟨place, expected, rfl⟩ := exists_of_extractCase_error hx
      exact ⟨place, expected, rfl⟩
    | ok x =>
      -- a header that is read in front of the colon is one whose list fills the white space
      obtain ⟨header, hheader, -⟩ := ReadsClauseHeader.of_extractCase hfits hopens hx
      rw [ht] at hheader
      exact absurd (hheader.fillsList hwhite) hfills

/-! ## Parsed templates -/

/-- In every template that a source holds, under all options, the list of every clause is written in
the source, and it is empty exactly if white space fills it there. White space that does not fill a
list is refused in front of a colon as an expression that is not well formed. -/
theorem parse_lists (source : String) (o : Options) :
    (∀ t, parse source o = .ok t → ∀ tag clauses block,
      .switch tag clauses block ∈ Template.subnodes t → ∀ clause ∈ clauses, ∀ list,
        clause.header = .case list →
          ∃ written, list.WrittenAs source written ∧ (list.value = "" ↔ FillsList written)) ∧
    ∀ around block (t : Tail) white rest,
      t.chars = Keyword.spaced Keyword.case ++ (white ++ ':' :: rest) → IsRun isWhiteSpace white →
        (FillsList white → ∃ list u, list.value = "" ∧ openClause around block t =
          .advance [] (.body (⟨block, .case list⟩ :: around) [] true) u) ∧
        (¬FillsList white → ∃ place expected,
          openClause around block t = .fail [] ⟨place, .invalidExpression .case expected⟩) := by
  refine ⟨fun t h => ?_, fun around block t white rest => openClause_white around block⟩
  obtain ⟨nodes, hbody, rfl⟩ := parse_eq_ok_iff.1 h
  intro tag' clauses' block' hmem' clause' hclause' list' hlist'
  rw [Template.subnodes_map] at hmem'
  obtain ⟨node, hmem, hnode⟩ := List.mem_map.1 hmem'
  obtain ⟨depth, lineStart, cs, rest, hread, hcs, -⟩ := hbody.between node hmem
  cases hread with
  | text | output | fallthrough => cases hnode
  | switch _ hheader _ hclauses _ =>
    cases hnode
    rw [Clause.mapAll_eq_map] at hclause'
    obtain ⟨clause, hclause, rfl⟩ := List.mem_map.1 hclause'
    obtain ⟨ds, mid, stop, hds, hread, -⟩ := hclauses.exists_clause clause hclause
    rw [Clause.header_map] at hlist'
    cases hclauseHeader : clause.header with
    | default keyword =>
      rw [hclauseHeader] at hlist'
      cases hlist'
    | case list =>
      rw [hclauseHeader] at hlist' hread
      cases hlist'
      exact hread.written ((hds.trans hheader.suffix).trans hcs)

/-- A no-break space is all that this list has. -/
theorem parse_lists_unseen :
    ∃ list, parse "switch x \x7b\ncase \u00a0:\n\x7d\n" =
        .ok [.switch ⟨"x", ⟨⟨7, 1, 8⟩, ⟨8, 1, 9⟩⟩⟩ [⟨.case list, []⟩] ⟨⟨0, 1, 1⟩, ⟨21, 3, 2⟩⟩] ∧
      list.value = "" ∧ ∃ written,
        list.WrittenAs "switch x \x7b\ncase \u00a0:\n\x7d\n" written ∧ FillsList written := by
  have hparse : parse "switch x \x7b\ncase \u00a0:\n\x7d\n" = .ok [.switch
      ⟨"x", ⟨⟨7, 1, 8⟩, ⟨8, 1, 9⟩⟩⟩ [⟨.case ⟨"", ⟨⟨18, 2, 7⟩, ⟨18, 2, 7⟩⟩⟩, []⟩]
      ⟨⟨0, 1, 1⟩, ⟨21, 3, 2⟩⟩] := by
    decide +kernel
  obtain ⟨written, hwritten, hempty⟩ := (parse_lists _ {}).1 _ hparse _ _ _ List.mem_cons_self _
    List.mem_cons_self _ rfl
  exact ⟨_, hparse, rfl, written, hwritten, hempty.1 rfl⟩

end SwitchMarkup

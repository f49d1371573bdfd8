import SwitchMarkup.Proofs.Grammar.Headers

/-!
# What the readers of headers accept

Every reader takes exactly the texts of its construct: what it extracts is the construct's
expression at byte offsets, and what it leaves is the text behind the construct. Each reader has two
statements, one for each direction.
-/

namespace SwitchMarkup

open Items

variable {cs mid rest : List Char} {t u : Tail} {x : Extraction} {total : Nat}
  {expression tag : Fragment (List Char)} {header : Header (List Char)}

/-! ## Blanks and line ends -/

theorem IsLineEnd.stops_isBlank {lineEnd : List Char} (h : IsLineEnd lineEnd) (rest : List Char) :
    Stops isBlank (lineEnd ++ rest) := by
  rcases h with rfl | rfl
  · exact stops_cons.2 rfl
  · exact stops_cons.2 rfl

/-- A line end is taken just where one stands. -/
theorem Tail.dropLineEnd?_eq_some_iff (ht : t.Fits total) :
    t.dropLineEnd? = some u ↔ (∃ lineEnd, IsLineEnd lineEnd ∧ t.chars = lineEnd ++ u.chars) ∧
      u.Fits total := by
  rw [Tail.dropLineEnd?, Option.or_eq_some_iff, Tail.drop?_eq_some_iff ht,
    Tail.drop?_eq_some_iff ht, Tail.drop?_eq_none_iff]
  constructor
  · rintro (⟨h, hu⟩ | ⟨-, h, hu⟩)
    · exact ⟨⟨_, .inl rfl, h⟩, hu⟩
    · exact ⟨⟨_, .inr rfl, h⟩, hu⟩
  · rintro ⟨⟨lineEnd, rfl | rfl, h⟩, hu⟩
    · exact .inl ⟨h, hu⟩
    · refine .inr ⟨?_, h, hu⟩
      rw [h]
      intro hbegins
      cases (List.cons_prefix_cons.1 hbegins).1

/-- A word and a space, and what stands behind all the blanks. -/
theorem exists_spaced_append {word : List Char} (ht : t.Fits total)
    (h : Keyword.spaced word <+: t.chars) :
    ∃ u gap rest, (t.drop? word).bind Tail.skipBlanks? = some u ∧ u.Fits total ∧
      u.chars = rest ∧ t.chars = Keyword.spaced word ++ (gap ++ rest) ∧ IsRun isBlank gap ∧
      Stops isBlank rest := by
  obtain ⟨more, hmore⟩ := h
  have hcut : more.takeWhile isBlank ++ more.dropWhile isBlank = more :=
    List.takeWhile_append_dropWhile
  have hgap := isRun_takeWhile isBlank more
  have hstart := stops_dropWhile isBlank more
  have hwhole : t.chars =
      word ++ (' ' :: more.takeWhile isBlank ++ more.dropWhile isBlank) := by
    rw [← hmore, List.cons_append, hcut, Keyword.spaced, List.append_assoc]
    rfl
  obtain ⟨u, hu, hchars, hfits⟩ := Tail.exists_drop?_bind_skipBlanks? ht hwhole
    (List.cons_ne_nil _ _) (isRun_cons.2 ⟨rfl, hgap⟩) hstart
  exact ⟨u, _, _, hu, hfits, hchars, by rw [hcut, hmore], hgap, hstart⟩

/-- The blanks behind a word that is followed by a space begin with that space. -/
theorem exists_cons_of_spaced {word gap : List Char} (hgap : gap ≠ [])
    (h : Keyword.spaced word <+: word ++ (gap ++ rest)) : ∃ gap', gap = ' ' :: gap' := by
  obtain ⟨c, gap, rfl⟩ := List.exists_cons_of_ne_nil hgap
  rw [Keyword.spaced, List.prefix_append_right_inj] at h
  exact ⟨gap, congrArg (· :: gap) (List.cons_prefix_cons.1 h).1.symm⟩

/-! ## Output expressions -/

/-- An expression in braces is a header of that kind. -/
theorem readsOutput_iff_isHeader :
    ReadsOutput cs expression rest ↔ IsHeader .output cs expression rest := by
  constructor
  · rintro ⟨hrun, hvalue⟩
    exact .output hrun.isItems (mt trim_eq_nil_iff.2 hvalue)
  · intro h
    cases h with
    | output hrun hvisible => exact .mk hrun.covers (mt trim_eq_nil_iff.1 hvisible)

/-- An extraction in braces is one of the grammar. -/
theorem ReadsOutput.of_extractOutput (ht : t.Fits total) (h : extractOutput t = .ok x) :
    ∃ expression, ReadsOutput t.chars expression x.rest.chars ∧
      x.expression = expression.map (placeIn total) ∧ x.rest.Fits total := by
  obtain ⟨expression, hheader, hexpression⟩ := exists_isHeader_output ht h
  exact ⟨expression, readsOutput_iff_isHeader.2 hheader, hexpression⟩

theorem ReadsOutput.extractOutput (ht : t.Fits total) (h : ReadsOutput t.chars expression rest) :
    ∃ x, extractOutput t = .ok x ∧ x.expression = expression.map (placeIn total) ∧
      x.rest.chars = rest ∧ x.rest.Fits total :=
  (readsOutput_iff_isHeader.1 h).exists_extract ht

/-! ## Text -/

/-- A visible text up to a brace or a line end is one of the grammar. -/
theorem ReadsText.of_takeWhile (ht : t.Fits total) (hstart : Stops isWhiteSpace t.chars)
    (hvalue : trimEnd (t.chars.takeWhile fun c => !endsText c) ≠ []) :
    ∃ content, ReadsText t.chars content (t.chars.dropWhile fun c => !endsText c) ∧
      Fragment.ofChars t.offset (trimEnd (t.chars.takeWhile fun c => !endsText c)) =
        content.map (placeIn total) := by
  have hcut := List.takeWhile_append_dropWhile (p := fun c => !endsText c) (l := t.chars)
  have hrun := isRun_takeWhile (fun c => !endsText c) t.chars
  have hrest := stops_dropWhile (fun c => !endsText c) t.chars
  generalize t.chars.takeWhile (fun c => !endsText c) = run at hcut hrun hvalue
  generalize t.chars.dropWhile (fun c => !endsText c) = rest at hcut hrest
  rw [← hcut] at hstart
  have hfits : (⟨t.offset, run ++ rest⟩ : Tail).Fits total := by
    rw [hcut]
    exact ht
  refine ⟨.ofRun run rest, ?_, ?_⟩
  · rw [← hcut]
    refine ReadsText.mk ?_ hstart.of_append hrun hrest
    rintro rfl
    exact hvalue rfl
  · rw [Fragment.ofChars_trimEnd hstart.of_append, Fragment.trimmed_eq hfits]

/-- A text of the grammar is what stands up to a brace or a line end. -/
theorem ReadsText.takeWhile (ht : t.Fits total) (h : ReadsText t.chars expression rest) :
    trimEnd (t.chars.takeWhile fun c => !endsText c) ≠ [] ∧
      t.chars.dropWhile (fun c => !endsText c) = rest ∧
      Fragment.ofChars t.offset (trimEnd (t.chars.takeWhile fun c => !endsText c)) =
        expression.map (placeIn total) := by
  generalize hcs : t.chars = cs at h
  obtain @⟨run, rest, hne, hstart, hrun, hrest⟩ := h
  have hfits : (⟨t.offset, run ++ rest⟩ : Tail).Fits total := by
    rw [← hcs]
    exact ht
  rw [takeWhile_run hrun hrest, dropWhile_run hrun hrest]
  refine ⟨?_, rfl, ?_⟩
  · cases run with
    | nil => exact absurd rfl hne
    | cons c run => exact trimEnd_ne_nil (stops_cons.1 hstart)
  · rw [Fragment.ofChars_trimEnd hstart, Fragment.trimmed_eq hfits]

/-! ## Fallthroughs -/

theorem readsFallthrough_iff_isHeader :
    ReadsFallthrough cs expression rest ↔ IsHeader .fallthrough cs expression rest := by
  constructor
  · rintro ⟨hpad, hrest⟩
    exact .fallthrough hpad hrest
  · intro h
    cases h with
    | fallthrough hblank hend => exact .mk hblank hend

/-- The extraction of a `fallthrough` is one of the grammar. -/
theorem ReadsFallthrough.of_extractFallthrough (ht : t.Fits total)
    (h : extractFallthrough t = .ok x) :
    ∃ expression, ReadsFallthrough t.chars expression x.rest.chars ∧
      x.expression = expression.map (placeIn total) ∧ x.rest.Fits total := by
  obtain ⟨expression, hheader, hexpression⟩ := exists_isHeader_fallthrough ht h
  exact ⟨expression, readsFallthrough_iff_isHeader.2 hheader, hexpression⟩

theorem ReadsFallthrough.extractFallthrough (ht : t.Fits total)
    (h : ReadsFallthrough t.chars expression rest) :
    ∃ x, extractFallthrough t = .ok x ∧ x.expression = expression.map (placeIn total) ∧
      x.rest.chars = rest ∧ x.rest.Fits total :=
  (readsFallthrough_iff_isHeader.1 h).exists_extract ht

/-! ## Switch headers -/

/-- Behind a brace the opening of a block is taken just where only blanks stand in front of a line
end. -/
theorem Tail.dropBlockOpening?_eq_some_iff (ht : t.Fits total) (hbrace : '\x7b' ∈ t.chars.head?) :
    t.dropBlockOpening? = some u ↔
      (∃ pad lineEnd, IsRun isBlank pad ∧ IsLineEnd lineEnd ∧
        t.chars = '\x7b' :: (pad ++ (lineEnd ++ u.chars))) ∧ u.Fits total := by
  obtain ⟨cs, hcs⟩ : ∃ cs, t.chars = '\x7b' :: cs := List.head?_eq_some_iff.1 hbrace
  obtain ⟨hskip, hskipFits⟩ : t.skipBlanks.chars = '\x7b' :: cs ∧ t.skipBlanks.Fits total :=
    Tail.skipBlanks_append ht hcs isRun_nil (stops_cons.2 rfl)
  obtain ⟨v, hv, hvchars, hvfits⟩ := Tail.drop?_append hskipFits ['\x7b'] cs hskip
  have hblanks : v.skipBlanks.Fits total := hvfits.skipWhile isBlank
  rw [Tail.dropBlockOpening?, hv, Option.bind_some, Tail.dropLineEnd?_eq_some_iff hblanks,
    Tail.skipBlanks, Tail.chars_skipWhile, hvchars, hcs]
  constructor
  · rintro ⟨⟨lineEnd, hend, heq⟩, hu⟩
    refine ⟨⟨cs.takeWhile isBlank, lineEnd, isRun_takeWhile isBlank cs, hend, ?_⟩, hu⟩
    rw [← heq, List.takeWhile_append_dropWhile]
  · rintro ⟨⟨pad, lineEnd, hpad, hend, heq⟩, hu⟩
    refine ⟨⟨lineEnd, hend, ?_⟩, hu⟩
    rw [List.tail_eq_of_cons_eq heq, dropWhile_run hpad (hend.stops_isBlank u.chars)]

/-- The tag of a switch has ended in front of a brace, or there is no block. -/
theorem Tail.mem_head?_of_dropBlockOpening? (hstuck : Stuck .tag t.chars)
    (hu : t.dropBlockOpening? = some u) : '\x7b' ∈ t.chars.head? := by
  obtain ⟨v, hv, -⟩ := Option.bind_eq_some_iff.1 hu
  have hchars := (Tail.drop?_eq_some hv).1
  rw [Tail.skipBlanks, Tail.chars_skipWhile] at hchars
  cases hcs : t.chars with
  | nil =>
    rw [hcs] at hchars
    cases hchars
  | cons c cs =>
    rw [hcs] at hchars hstuck
    by_cases hc : isBlank c = true
    · -- A blank is an item of a tag.
      have hwhite := isWhiteSpace_of_isBlank hc
      have hitem := stuck_cons_iff.1 hstuck
      rw [afterItem?_plain (not_isDelimiter_of_isWhiteSpace hwhite)] at hitem
      rcases (by simpa [isBlank] using hc : c = ' ' ∨ c = '\t') with rfl | rfl
      · cases hitem
      · cases hitem
    · rw [List.dropWhile_cons_of_neg hc] at hchars
      cases hchars
      rfl

/-- An extraction with the opening of a block behind it is a header of the grammar. -/
theorem ReadsSwitchHeader.of_extractSwitch (ht : t.Fits total)
    (hkeyword : Keyword.spaced Keyword.switch <+: t.chars) (h : extractSwitch t = .ok x)
    (hu : x.rest.dropBlockOpening? = some u) :
    ∃ tag, ReadsSwitchHeader t.chars tag u.chars ∧ x.expression = tag.map (placeIn total) ∧
      u.Fits total := by
  obtain ⟨v, gap, cs, hv, hfits, hvchars, hchars, hgap, hstart⟩ := exists_spaced_append ht hkeyword
  simp only [extractSwitch, hv] at h
  obtain ⟨run, hrun, hcovers, hstuck⟩ := exists_covers_append .tag v.chars
  have hrestFits := hfits.goTo (afterItems_suffix .tag v.chars)
  split at h
  · cases h
    have hbrace := Tail.mem_head?_of_dropBlockOpening? hstuck hu
    obtain ⟨⟨pad, lineEnd, hpad, hend, hrest⟩, huFits⟩ :=
      (Tail.dropBlockOpening?_eq_some_iff hrestFits hbrace).1 hu
    have hrest' : afterItems .tag v.chars = '\x7b' :: (pad ++ (lineEnd ++ u.chars)) := hrest
    rw [hrest'] at hrun
    refine ⟨.ofRun run ('\x7b' :: (pad ++ (lineEnd ++ u.chars))), ?_, ?_, huFits⟩
    · rw [hchars, ← hvchars, hrun]
      refine .mk hgap ?_ hcovers hpad hend
      rw [← hvchars, hrun] at hstart
      exact hstart.of_append
    · rw [hrest, hrun, upTo_eq]
      refine Fragment.trimmed_eq ?_
      rw [← hrun]
      exact hfits
  · exact absurd h refuse_ne_ok

/-- A header of the grammar is extracted, and the opening of its block is taken. -/
theorem ReadsSwitchHeader.extractSwitch (ht : t.Fits total)
    (h : ReadsSwitchHeader t.chars tag rest) :
    ∃ x u, extractSwitch t = .ok x ∧ x.expression = tag.map (placeIn total) ∧
      x.rest.dropBlockOpening? = some u ∧ u.chars = rest ∧ u.Fits total := by
  generalize hcs : t.chars = cs at h
  obtain @⟨gap, run, pad, lineEnd, rest, hgap, hstart, hcovers, hpad, hend⟩ := h
  rw [Keyword.spaced, List.append_assoc, ← List.append_assoc [' ']] at hcs
  obtain ⟨x, hx, hexpression, hrest, hfits⟩ := exists_extractSwitch ht hcs
    (List.cons_ne_nil _ _) (isRun_cons.2 ⟨rfl, hgap⟩) hcovers stuck_tag_open
    (.inl (List.prefix_append ['\x7b'] _))
  have hsuffix : rest <:+ x.rest.chars := ⟨'\x7b' :: (pad ++ lineEnd), by simp [hrest]⟩
  refine ⟨x, _, hx, hexpression, (Tail.dropBlockOpening?_eq_some_iff hfits ?_).2
    ⟨⟨pad, lineEnd, hpad, hend, hrest⟩, hfits.goTo hsuffix⟩, rfl, hfits.goTo hsuffix⟩
  rw [hrest]
  rfl

/-! ## Clause headers -/

/-- The header that is made of an extracted clause expression. -/
def clauseHeader (t : Tail) (x : Extraction) : Header Nat :=
  if t.startsWith Keyword.default then .default x.expression.span else .case x.expression

theorem not_startsWith_default (h : Keyword.spaced Keyword.case <+: t.chars) :
    t.startsWith Keyword.default = false := by
  rw [Bool.eq_false_iff]
  intro hdefault
  obtain ⟨more, hmore⟩ := h
  obtain ⟨more', hmore'⟩ := Tail.startsWith_iff.1 hdefault
  rw [← hmore] at hmore'
  cases (List.cons_eq_cons.1 hmore').1

theorem ReadsClauseHeader.of_case (ht : t.Fits total)
    (hkeyword : Keyword.spaced Keyword.case <+: t.chars) (h : extractCase t = .ok x) :
    ∃ list, ReadsClauseHeader t.chars (.case list) x.rest.chars ∧
      x.expression = list.map (placeIn total) ∧ x.rest.Fits total := by
  obtain ⟨list, hheader, hlist⟩ := exists_isHeader_case ht h
  refine ⟨list, ?_, hlist⟩
  generalize t.chars = cs at hkeyword hheader
  cases hheader with
  | case hgap hblank hne hstart hrun =>
    obtain ⟨gap, rfl⟩ := exists_cons_of_spaced hgap hkeyword
    rw [List.cons_append, List.append_cons]
    exact .case (isRun_cons.1 hblank).2 hne hstart hrun.covers
  | default => cases (List.cons_prefix_cons.1 hkeyword).1

theorem ReadsClauseHeader.of_default (ht : t.Fits total)
    (hkeyword : Keyword.default <+: t.chars) (h : extractCase t = .ok x) :
    ∃ keyword, ReadsClauseHeader t.chars (.default keyword) x.rest.chars ∧
      x.expression.span = keyword.map (placeIn total) ∧ x.rest.Fits total := by
  obtain ⟨expression, hheader, hexpression, hfits⟩ := exists_isHeader_case ht h
  refine ⟨expression.span, ?_, by rw [hexpression]; rfl, hfits⟩
  generalize t.chars = cs at hkeyword hheader
  cases hheader with
  | case => cases (List.cons_prefix_cons.1 hkeyword).1
  | default hblank => exact .default hblank

theorem ReadsClauseHeader.of_extractCase (ht : t.Fits total) (hopens : OpensClause t.chars)
    (h : extractCase t = .ok x) :
    ∃ header, ReadsClauseHeader t.chars header x.rest.chars ∧
      clauseHeader t x = header.map (placeIn total) ∧ x.rest.Fits total := by
  rw [clauseHeader]
  rcases hopens with hkeyword | hkeyword
  · obtain ⟨list, hheader, hlist, hfits⟩ := ReadsClauseHeader.of_case ht hkeyword h
    exact ⟨.case list, hheader, by rw [not_startsWith_default hkeyword, hlist]; rfl, hfits⟩
  · obtain ⟨keyword, hheader, hspan, hfits⟩ := ReadsClauseHeader.of_default ht hkeyword h
    exact ⟨.default keyword, hheader, by rw [if_pos (Tail.startsWith_iff.2 hkeyword), hspan]; rfl,
      hfits⟩

/-- A header of a clause of the grammar is extracted. -/
theorem ReadsClauseHeader.extractCase (ht : t.Fits total)
    (h : ReadsClauseHeader t.chars header rest) :
    ∃ x, extractCase t = .ok x ∧ clauseHeader t x = header.map (placeIn total) ∧
      x.rest.chars = rest ∧ x.rest.Fits total := by
  generalize hcs : t.chars = cs at h
  cases h with
  | case hgap hne hstart hcovers =>
    have hkeyword : Keyword.spaced Keyword.case <+: t.chars := hcs ▸ List.prefix_append ..
    rw [Keyword.spaced, List.append_assoc, ← List.append_assoc [' ']] at hcs
    obtain ⟨x, hx, hexpression, hrest⟩ := exists_extractCase_case ht hcs
      (List.cons_ne_nil _ _) (isRun_cons.2 ⟨rfl, hgap⟩) hne hstart hcovers
    refine ⟨x, hx, ?_, hrest⟩
    rw [clauseHeader, not_startsWith_default hkeyword, hexpression]
    rfl
  | default hpad =>
    have hkeyword : Keyword.default <+: t.chars := hcs ▸ List.prefix_append ..
    obtain ⟨x, hx, hexpression, hrest⟩ := exists_extractCase_default ht hcs hpad
    refine ⟨x, hx, ?_, hrest⟩
    rw [clauseHeader, if_pos (Tail.startsWith_iff.2 hkeyword), hexpression]
    rfl

/-! ## A text has one reading -/

theorem ReadsText.rest_unique {content content' : Fragment (List Char)} {rest' : List Char}
    (h : ReadsText cs content rest) (h' : ReadsText cs content' rest') : rest = rest' := by
  have ht := Tail.fits_start cs
  rw [← (h.takeWhile ht).2.1, ← (h'.takeWhile ht).2.1]

theorem ReadsOutput.rest_unique {expression' : Fragment (List Char)} {rest' : List Char}
    (h : ReadsOutput cs expression rest) (h' : ReadsOutput cs expression' rest') :
    rest = rest' := by
  obtain ⟨x, hx, -, hrest, -⟩ := h.extractOutput (Tail.fits_start cs)
  obtain ⟨x', hx', -, hrest', -⟩ := h'.extractOutput (Tail.fits_start cs)
  cases hx.symm.trans hx'
  rw [← hrest, ← hrest']

theorem ReadsFallthrough.rest_unique {expression' : Fragment (List Char)} {rest' : List Char}
    (h : ReadsFallthrough cs expression rest) (h' : ReadsFallthrough cs expression' rest') :
    rest = rest' := by
  obtain ⟨x, hx, -, hrest, -⟩ := h.extractFallthrough (Tail.fits_start cs)
  obtain ⟨x', hx', -, hrest', -⟩ := h'.extractFallthrough (Tail.fits_start cs)
  cases hx.symm.trans hx'
  rw [← hrest, ← hrest']

theorem ReadsSwitchHeader.rest_unique {tag' : Fragment (List Char)} {rest' : List Char}
    (h : ReadsSwitchHeader cs tag rest) (h' : ReadsSwitchHeader cs tag' rest') : rest = rest' := by
  obtain ⟨x, u, hx, -, hu, hrest, -⟩ := h.extractSwitch (Tail.fits_start cs)
  obtain ⟨x', u', hx', -, hu', hrest', -⟩ := h'.extractSwitch (Tail.fits_start cs)
  cases hx.symm.trans hx'
  cases hu.symm.trans hu'
  rw [← hrest, ← hrest']

theorem ReadsClauseHeader.rest_unique {header' : Header (List Char)} {rest' : List Char}
    (h : ReadsClauseHeader cs header rest) (h' : ReadsClauseHeader cs header' rest') :
    rest = rest' := by
  obtain ⟨x, hx, -, hrest, -⟩ := h.extractCase (Tail.fits_start cs)
  obtain ⟨x', hx', -, hrest', -⟩ := h'.extractCase (Tail.fits_start cs)
  cases hx.symm.trans hx'
  rw [← hrest, ← hrest']

end SwitchMarkup

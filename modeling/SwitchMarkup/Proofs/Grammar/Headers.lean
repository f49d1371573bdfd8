import SwitchMarkup.Cursor.Basic
import SwitchMarkup.Proofs.Expression.Syntax
import SwitchMarkup.Proofs.Grammar.Constructs

/-!
# The syntax of headers

What a header of each context is, said without a reader, and that the readers take exactly those
texts. Where a header ends is never a matter of choice: an item can end in only one way, a list or
a braced expression runs up to a character that begins no item, and a tag is as long as it can be.
Main statements: `IsHeader.exists_extract` and `exists_isHeader` for tails,
`Cursor.extraction_iff_isHeader` for cursors.
-/

namespace SwitchMarkup

open Items

variable {word cs ds pad run rest : List Char} {c : Char} {context : Context} {t u : Tail}
  {x : Extraction} {total : Nat} {expression : Fragment (List Char)}

/-! ## The grammar -/

/-- A text that begins with a header of a context, the expression in that header and the text
behind it. The expression is a piece of the text without the white space around it, its places
given by the texts behind them. -/
inductive IsHeader : Context → List Char → Fragment (List Char) → List Char → Prop where
  | switch {gap run rest : List Char} (hgap : gap ≠ []) (hblank : IsRun isBlank gap)
      (hrun : IsItems .tag run)
      (hlongest : ∀ longer, IsItems .tag longer → longer <+: run ++ rest → longer <+: run)
      (hend : ['\x7b'] <+: rest ∨ EndsLine rest) :
      IsHeader .switch (Keyword.switch ++ (gap ++ (run ++ rest))) (.ofRun run rest) rest
  | case {gap run rest : List Char} (hgap : gap ≠ []) (hblank : IsRun isBlank gap)
      (hne : run ≠ []) (hstart : Stops isBlank run) (hrun : IsItems .list run) :
      IsHeader .case (Keyword.case ++ (gap ++ (run ++ ':' :: rest))) (.ofRun run (':' :: rest)) rest
  | default {gap rest : List Char} (hblank : IsRun isBlank gap) :
      IsHeader .case (Keyword.default ++ (gap ++ ':' :: rest))
        (.ofRun Keyword.default (gap ++ ':' :: rest)) rest
  | fallthrough {gap rest : List Char} (hblank : IsRun isBlank gap) (hend : EndsLine rest) :
      IsHeader .fallthrough (Keyword.fallthrough ++ (gap ++ rest))
        (.ofRun Keyword.fallthrough (gap ++ rest)) rest
  | output {run rest : List Char} (hrun : IsItems .braced run)
      (hvisible : ¬IsRun isWhiteSpace run) :
      IsHeader .output ('\x7b' :: (run ++ '\x7d' :: rest)) (.ofRun run ('\x7d' :: rest)) rest

/-! ## Words and blanks -/

theorem Tail.drop?_append (ht : t.Fits total) (word rest : List Char)
    (h : t.chars = word ++ rest) : ∃ u, t.drop? word = some u ∧ u.chars = rest ∧ u.Fits total := by
  have hu : (⟨t.offset + byteLength word, rest⟩ : Tail).Fits total := by
    refine Tail.Fits.append t.offset word rest ?_
    rw [← h]
    exact ht
  exact ⟨_, (Tail.drop?_eq_some_iff ht).2 ⟨h, hu⟩, rfl, hu⟩

theorem not_isBlank_of_isLineBreak (h : isLineBreak c = true) : isBlank c = false := by
  rcases (by simpa [isLineBreak] using h : c = '\n' ∨ c = '\r') with rfl | rfl <;> rfl

theorem EndsLine.stops_isBlank (h : EndsLine cs) : Stops isBlank cs :=
  fun c hc => not_isBlank_of_isLineBreak (h c hc)

theorem Tail.skipBlanks_append (ht : t.Fits total) (h : t.chars = pad ++ rest)
    (hpad : IsRun isBlank pad) (hrest : Stops isBlank rest) :
    t.skipBlanks.chars = rest ∧ t.skipBlanks.Fits total := by
  refine ⟨?_, ht.skipWhile isBlank⟩
  rw [Tail.skipBlanks, Tail.chars_skipWhile, h, dropWhile_run hpad hrest]

/-- The blanks in front of a text, of which there is at least one. -/
theorem Tail.skipBlanks?_eq_some_iff (ht : t.Fits total) :
    t.skipBlanks? = some u ↔
      (∃ gap, gap ≠ [] ∧ IsRun isBlank gap ∧ Stops isBlank u.chars ∧ t.chars = gap ++ u.chars) ∧
        u.Fits total := by
  have hcut : t.chars = t.chars.takeWhile isBlank ++ t.skipBlanks.chars :=
    List.takeWhile_append_dropWhile.symm
  rw [Tail.skipBlanks?]
  constructor
  · intro h
    split at h
    next hblank =>
      cases h
      refine ⟨⟨_, ?_, isRun_takeWhile isBlank t.chars, stops_dropWhile isBlank t.chars, hcut⟩,
        ht.skipWhile isBlank⟩
      intro hnil
      obtain ⟨c, hc, hcblank⟩ := (Option.any_eq_true ..).1 hblank
      obtain ⟨cs, hcs⟩ := List.head?_eq_some_iff.1 hc
      rw [hcs, List.takeWhile_cons_of_pos hcblank] at hnil
      cases hnil
    next => cases h
  · rintro ⟨⟨gap, hgap, hblank, hstart, hchars⟩, hu⟩
    obtain ⟨c, gap, rfl⟩ := List.exists_cons_of_ne_nil hgap
    obtain ⟨hskip, hskipFits⟩ := Tail.skipBlanks_append ht hchars hblank hstart
    rw [hchars, List.cons_append, List.head?_cons, Option.any_some, if_pos (isRun_cons.1 hblank).1]
    exact congrArg some (hskipFits.eq hu hskip)

/-- A word, at least one blank, and what stands behind all the blanks. -/
theorem Tail.drop?_bind_skipBlanks?_eq_some_iff (ht : t.Fits total) :
    (t.drop? word).bind Tail.skipBlanks? = some u ↔
      (∃ gap, gap ≠ [] ∧ IsRun isBlank gap ∧ Stops isBlank u.chars ∧
        t.chars = word ++ (gap ++ u.chars)) ∧ u.Fits total := by
  rw [Option.bind_eq_some_iff]
  constructor
  · rintro ⟨v, hv, hu⟩
    obtain ⟨hchars, hfits⟩ := (Tail.drop?_eq_some_iff ht).1 hv
    obtain ⟨⟨gap, hgap, hblank, hstart, hcut⟩, hufits⟩ :=
      (Tail.skipBlanks?_eq_some_iff hfits).1 hu
    exact ⟨⟨gap, hgap, hblank, hstart, hcut ▸ hchars⟩, hufits⟩
  · rintro ⟨⟨gap, hgap, hblank, hstart, hchars⟩, hu⟩
    obtain ⟨v, hv, hcut, hfits⟩ := Tail.drop?_append ht word _ hchars
    exact ⟨v, hv, (Tail.skipBlanks?_eq_some_iff hfits).2
      ⟨⟨gap, hgap, hblank, hstart, hcut⟩, hu⟩⟩

theorem Tail.exists_drop?_bind_skipBlanks? (ht : t.Fits total) {gap : List Char}
    (h : t.chars = word ++ (gap ++ rest)) (hgap : gap ≠ []) (hblank : IsRun isBlank gap)
    (hstart : Stops isBlank rest) :
    ∃ u, (t.drop? word).bind Tail.skipBlanks? = some u ∧ u.chars = rest ∧ u.Fits total := by
  obtain ⟨v, -, hvchars, hvfits⟩ := Tail.drop?_append ht (word ++ gap) rest (by
    rw [h, List.append_assoc])
  refine ⟨v, (Tail.drop?_bind_skipBlanks?_eq_some_iff ht).2 ⟨⟨gap, hgap, hblank, ?_⟩, hvfits⟩,
    hvchars, hvfits⟩
  rw [hvchars]
  exact ⟨hstart, h⟩

/-! ## Pieces of items -/

/-- White space in front of a piece is no part of what is read. -/
theorem Fragment.ofRun_white_append (hpad : IsRun isWhiteSpace pad) (run rest : List Char) :
    Fragment.ofRun (pad ++ run) rest = Fragment.ofRun run rest := by
  have hstart : trimStart (pad ++ run) = trimStart run := by
    rw [trimStart, trimStart, List.dropWhile_append_of_pos hpad]
  rw [Fragment.ofRun, Fragment.ofRun, trim, trim, hstart]

/-- What the readers extract from a tail that is cut into a piece and what stands behind it. -/
theorem Fragment.trimmed_upTo (ht : t.Fits total) (h : t.chars = run ++ rest) :
    Fragment.trimmed t.offset (upTo rest t.chars) =
      (Fragment.ofRun run rest).map (placeIn total) := by
  rw [h, upTo_eq]
  refine Fragment.trimmed_eq ?_
  rw [← h]
  exact ht

/-- A text is items, as many as there are, and what begins no item. -/
theorem exists_isItems_append (kind : Kind) (cs : List Char) :
    ∃ run rest, cs = run ++ rest ∧ IsItems kind run ∧ Stuck kind rest ∧
      afterItems kind cs = rest := by
  obtain ⟨run, hrun, hcovers, hstuck⟩ := exists_covers_append kind cs
  exact ⟨run, _, hrun, covers_iff_isItems.1 hcovers, hstuck, rfl⟩

/-- Behind the longest run of items no item begins. -/
theorem stuck_of_longest {kind : Kind} (hrun : IsItems kind run)
    (h : ∀ longer, IsItems kind longer → longer <+: run ++ rest → longer <+: run) :
    Stuck kind rest := by
  obtain ⟨more, rest', rfl, hmore, hstuck, -⟩ := exists_isItems_append kind rest
  have hlonger := h (run ++ more) (covers_iff_isItems.1 (hrun.covers.append hmore.covers))
    ⟨rest', by rw [List.append_assoc]⟩
  have hlength := hlonger.length_le
  rw [List.length_append] at hlength
  have hnil : more = [] := List.length_eq_zero_iff.1 (by omega)
  rw [hnil]
  exact hstuck

/-! ## Switch headers -/

theorem stops_isBlank_of_end (h : ['\x7b'] <+: rest ∨ EndsLine rest) : Stops isBlank rest := by
  rcases h with ⟨more, rfl⟩ | hline
  · exact stops_cons.2 rfl
  · exact hline.stops_isBlank

/-- What is written like the header of a `switch` is extracted, with a tag that may be empty. -/
theorem exists_extractSwitch (ht : t.Fits total) {gap : List Char}
    (hchars : t.chars = Keyword.switch ++ (gap ++ (run ++ rest))) (hgap : gap ≠ [])
    (hblank : IsRun isBlank gap) (hrun : Covers .tag run) (hrest : Stuck .tag rest)
    (hend : ['\x7b'] <+: rest ∨ EndsLine rest) :
    ∃ x, extractSwitch t = .ok x ∧ x.expression = (Fragment.ofRun run rest).map (placeIn total) ∧
      x.rest.chars = rest ∧ x.rest.Fits total := by
  -- The reader counts the blanks that begin the tag with those in front of it.
  obtain ⟨lead, tag, rfl, hlead, htag⟩ :
      ∃ lead tag, run = lead ++ tag ∧ IsRun isBlank lead ∧ Stops isBlank tag :=
    ⟨_, _, List.takeWhile_append_dropWhile.symm, isRun_takeWhile isBlank run,
      stops_dropWhile isBlank run⟩
  have hwhite : IsRun isWhiteSpace lead := hlead.mono fun _ => isWhiteSpace_of_isBlank
  have hstart : Stops isBlank (tag ++ rest) := by
    cases tag with
    | nil => exact stops_isBlank_of_end hend
    | cons c tag => exact stops_cons.2 (stops_cons.1 htag)
  rw [List.append_assoc lead, ← List.append_assoc gap] at hchars
  obtain ⟨u, hu, huchars, hfits⟩ := Tail.exists_drop?_bind_skipBlanks? ht hchars
    (by simp [hgap]) (isRun_append.2 ⟨hblank, hlead⟩) hstart
  have hafter : afterItems .tag u.chars = rest := by
    rw [huchars, (hrun.of_white_append hwhite).afterItems_append_stuck hrest]
  have hends : ((u.goTo rest).startsWith ['\x7b'] || (u.goTo rest).atLineBreak) = true := by
    rw [Bool.or_eq_true, Tail.startsWith_iff, Tail.atLineBreak_iff]
    exact hend
  refine ⟨⟨.trimmed u.offset (upTo rest u.chars), u.goTo rest⟩, ?_, ?_, rfl,
    hfits.goTo ⟨tag, huchars.symm⟩⟩
  · simp only [extractSwitch, hu, hafter, hends, if_true]
    rfl
  · rw [Fragment.ofRun_white_append hwhite, Fragment.trimmed_upTo hfits huchars]

/-- What is extracted as the header of a `switch` is one. -/
theorem exists_isHeader_switch (ht : t.Fits total) (h : extractSwitch t = .ok x) :
    ∃ expression, IsHeader .switch t.chars expression x.rest.chars ∧
      x.expression = expression.map (placeIn total) ∧ x.rest.Fits total := by
  simp only [extractSwitch] at h
  split at h
  · exact absurd h refuse_ne_ok
  next u hu =>
    obtain ⟨⟨gap, hgap, hblank, -, hchars⟩, hfits⟩ :=
      (Tail.drop?_bind_skipBlanks?_eq_some_iff ht).1 hu
    obtain ⟨run, rest, hcut, hrun, hstuck, hafter⟩ := exists_isItems_append .tag u.chars
    rw [hafter] at h
    split at h
    next hend =>
      cases h
      rw [Bool.or_eq_true, Tail.startsWith_iff, Tail.atLineBreak_iff] at hend
      refine ⟨.ofRun run rest, ?_, Fragment.trimmed_upTo hfits hcut, hfits.goTo ⟨run, hcut.symm⟩⟩
      rw [hchars, hcut]
      exact .switch hgap hblank hrun (isItems_maximal hrun.covers hstuck) hend
    next => exact absurd h refuse_ne_ok

/-! ## Clause headers -/

/-- No text begins with both words that open a clause. -/
theorem drop?_case_of_default (h : Keyword.default <+: t.chars) :
    (t.drop? Keyword.case).bind Tail.skipBlanks? = none := by
  have hnone : t.drop? Keyword.case = none := by
    rw [Tail.drop?_eq_none_iff]
    rintro ⟨more, hmore⟩
    obtain ⟨more', hmore'⟩ := h
    rw [← hmore] at hmore'
    cases (List.cons_eq_cons.1 hmore').1
  rw [hnone, Option.bind_none]

/-- What is written like the header of a clause with a list is extracted. -/
theorem exists_extractCase_case (ht : t.Fits total) {gap : List Char}
    (hchars : t.chars = Keyword.case ++ (gap ++ (run ++ ':' :: rest))) (hgap : gap ≠ [])
    (hblank : IsRun isBlank gap) (hne : run ≠ []) (hstart : Stops isBlank run)
    (hrun : Covers .list run) :
    ∃ x, extractCase t = .ok x ∧
      x.expression = (Fragment.ofRun run (':' :: rest)).map (placeIn total) ∧
      x.rest.chars = rest ∧ x.rest.Fits total := by
  obtain ⟨u, hu, huchars, hfits⟩ := Tail.exists_drop?_bind_skipBlanks? ht hchars hgap hblank
    (hstart.append_cons rfl rest)
  have hafter : afterItems .list u.chars = ':' :: rest := by
    rw [huchars, hrun.afterItems_append_stuck stuck_list_colon]
  obtain ⟨v, hv, hvchars, hvfits⟩ :=
    Tail.drop?_append (hfits.goTo ⟨run, huchars.symm⟩) [':'] rest rfl
  have hlength : (u.goTo (':' :: rest)).chars.length ≠ u.chars.length := by
    have hpos := List.length_pos_iff.2 hne
    rw [huchars, List.length_append]
    show (':' :: rest).length ≠ _
    omega
  refine ⟨⟨.trimmed u.offset (upTo (':' :: rest) u.chars), v⟩, ?_,
    Fragment.trimmed_upTo hfits huchars, hvchars, hvfits⟩
  simp only [extractCase, hu, hafter, if_neg hlength, hv]
  rfl

theorem exists_extractCase_default (ht : t.Fits total) {gap : List Char}
    (hchars : t.chars = Keyword.default ++ (gap ++ ':' :: rest)) (hblank : IsRun isBlank gap) :
    ∃ x, extractCase t = .ok x ∧
      x.expression = (Fragment.ofRun Keyword.default (gap ++ ':' :: rest)).map (placeIn total) ∧
      x.rest.chars = rest ∧ x.rest.Fits total := by
  obtain ⟨u, hu, huchars, hfits⟩ := Tail.drop?_append ht _ _ hchars
  obtain ⟨hskip, hskipFits⟩ := Tail.skipBlanks_append hfits huchars hblank (stops_cons.2 rfl)
  obtain ⟨v, hv, hvchars, hvfits⟩ := Tail.drop?_append hskipFits [':'] rest hskip
  refine ⟨⟨.ofChars t.offset Keyword.default, v⟩, ?_, ?_, hvchars, hvfits⟩
  · simp only [extractCase, drop?_case_of_default (hchars ▸ List.prefix_append ..), hu,
      Option.bind_some, hv]
  · refine Fragment.ofChars_eq ?_ (by decide)
    rw [← hchars]
    exact ht

/-- What is extracted as the header of a clause is one, with a list or without. -/
theorem exists_isHeader_case (ht : t.Fits total) (h : extractCase t = .ok x) :
    ∃ expression, IsHeader .case t.chars expression x.rest.chars ∧
      x.expression = expression.map (placeIn total) ∧ x.rest.Fits total := by
  simp only [extractCase] at h
  split at h
  next u hu =>
    obtain ⟨⟨gap, hgap, hblank, hstart, hchars⟩, hfits⟩ :=
      (Tail.drop?_bind_skipBlanks?_eq_some_iff ht).1 hu
    obtain ⟨run, list, hcut, hrun, -, hafter⟩ := exists_isItems_append .list u.chars
    rw [hafter] at h
    split at h
    next => exact absurd h refuse_ne_ok
    next hlength =>
      split at h
      next rest hrest =>
        cases h
        obtain ⟨hcolon, hrestFits⟩ :=
          (Tail.drop?_eq_some_iff (hfits.goTo ⟨run, hcut.symm⟩)).1 hrest
        obtain rfl : list = ':' :: rest.chars := hcolon
        refine ⟨.ofRun run (':' :: rest.chars), ?_, Fragment.trimmed_upTo hfits hcut, hrestFits⟩
        rw [hcut] at hstart
        rw [hchars, hcut]
        refine .case hgap hblank ?_ hstart.of_append hrun
        -- the reader has made sure that its items took something
        rintro rfl
        exact hlength (congrArg List.length hcut).symm
      next => exact absurd h refuse_ne_ok
  next =>
    split at h
    next rest hrest =>
      cases h
      obtain ⟨u, hu, hcolon⟩ := Option.bind_eq_some_iff.1 hrest
      obtain ⟨hchars, hfits⟩ := (Tail.drop?_eq_some_iff ht).1 hu
      obtain ⟨hskip, hrestFits⟩ := (Tail.drop?_eq_some_iff (hfits.skipWhile isBlank)).1 hcolon
      have hcut : u.chars = u.chars.takeWhile isBlank ++ ':' :: rest.chars := by
        have hrest : u.chars.dropWhile isBlank = ':' :: rest.chars := hskip
        rw [← hrest, List.takeWhile_append_dropWhile]
      refine ⟨.ofRun Keyword.default u.chars, ?_, ?_, hrestFits⟩
      · rw [hchars, hcut]
        exact .default (isRun_takeWhile isBlank u.chars)
      · refine Fragment.ofChars_eq ?_ (by decide)
        rw [← hchars]
        exact ht
    next => exact absurd h refuse_ne_ok

/-! ## Fallthroughs -/

theorem exists_extractFallthrough (ht : t.Fits total) {gap : List Char}
    (hchars : t.chars = Keyword.fallthrough ++ (gap ++ rest)) (hblank : IsRun isBlank gap)
    (hend : EndsLine rest) :
    ∃ x, extractFallthrough t = .ok x ∧
      x.expression = (Fragment.ofRun Keyword.fallthrough (gap ++ rest)).map (placeIn total) ∧
      x.rest.chars = rest ∧ x.rest.Fits total := by
  obtain ⟨u, hu, huchars, hfits⟩ := Tail.drop?_append ht _ _ hchars
  obtain ⟨hskip, hskipFits⟩ := Tail.skipBlanks_append hfits huchars hblank hend.stops_isBlank
  have hbreak : u.skipBlanks.atLineBreak = true := by
    rw [Tail.atLineBreak_iff, hskip]
    exact hend
  refine ⟨⟨.ofChars t.offset Keyword.fallthrough, u.skipBlanks⟩, ?_, ?_, hskip, hskipFits⟩
  · simp only [extractFallthrough, hu, hbreak, if_true]
  · refine Fragment.ofChars_eq ?_ (by decide)
    rw [← hchars]
    exact ht

theorem exists_isHeader_fallthrough (ht : t.Fits total) (h : extractFallthrough t = .ok x) :
    ∃ expression, IsHeader .fallthrough t.chars expression x.rest.chars ∧
      x.expression = expression.map (placeIn total) ∧ x.rest.Fits total := by
  simp only [extractFallthrough] at h
  split at h
  next => exact absurd h refuse_ne_ok
  next u hu =>
    obtain ⟨hchars, hfits⟩ := (Tail.drop?_eq_some_iff ht).1 hu
    split at h
    next hbreak =>
      cases h
      have hcut : u.chars = u.chars.takeWhile isBlank ++ u.skipBlanks.chars :=
        List.takeWhile_append_dropWhile.symm
      refine ⟨.ofRun Keyword.fallthrough u.chars, ?_, ?_, hfits.skipWhile isBlank⟩
      · rw [hchars, hcut]
        exact .fallthrough (isRun_takeWhile isBlank u.chars) (Tail.atLineBreak_iff.1 hbreak)
      · refine Fragment.ofChars_eq ?_ (by decide)
        rw [← hchars]
        exact ht
    next => exact absurd h refuse_ne_ok

/-! ## Output expressions -/

/-- What is written like an expression in braces is extracted if it is visible. -/
theorem exists_extractOutput (ht : t.Fits total)
    (hchars : t.chars = '\x7b' :: (run ++ '\x7d' :: rest)) (hrun : Covers .braced run)
    (hvisible : ¬IsRun isWhiteSpace run) :
    ∃ x, extractOutput t = .ok x ∧
      x.expression = (Fragment.ofRun run ('\x7d' :: rest)).map (placeIn total) ∧
      x.rest.chars = rest ∧ x.rest.Fits total := by
  obtain ⟨u, hu, huchars, hfits⟩ := Tail.drop?_append ht ['\x7b'] (run ++ '\x7d' :: rest) hchars
  have hafter : afterItems .braced u.chars = '\x7d' :: rest := by
    rw [huchars, hrun.afterItems_append_stuck stuck_braced_close]
  obtain ⟨v, hv, hvchars, hvfits⟩ :=
    Tail.drop?_append (hfits.goTo ⟨run, huchars.symm⟩) ['\x7d'] rest rfl
  have hexpr := Fragment.trimmed_upTo hfits huchars
  have hnonempty :
      (Fragment.trimmed u.offset (upTo ('\x7d' :: rest) u.chars)).value.isEmpty = false := by
    rw [hexpr, String.isEmpty_eq_false_iff]
    simpa [Fragment.map] using mt trim_eq_nil_iff.1 hvisible
  refine ⟨⟨.trimmed u.offset (upTo ('\x7d' :: rest) u.chars), v⟩, ?_, hexpr, hvchars, hvfits⟩
  simp only [extractOutput, hu, hafter, hv]
  rw [show (u.goTo ('\x7d' :: rest)).chars = '\x7d' :: rest from rfl, hnonempty]
  rfl

theorem exists_isHeader_output (ht : t.Fits total) (h : extractOutput t = .ok x) :
    ∃ expression, IsHeader .output t.chars expression x.rest.chars ∧
      x.expression = expression.map (placeIn total) ∧ x.rest.Fits total := by
  simp only [extractOutput] at h
  split at h
  next => exact absurd h refuse_ne_ok
  next u hu =>
    obtain ⟨hchars, hfits⟩ := (Tail.drop?_eq_some_iff ht).1 hu
    obtain ⟨run, body, hcut, hrun, -, hafter⟩ := exists_isItems_append .braced u.chars
    rw [hafter] at h
    split at h
    next => exact absurd h refuse_ne_ok
    next rest hrest =>
      obtain ⟨hclose, hrestFits⟩ := (Tail.drop?_eq_some_iff (hfits.goTo ⟨run, hcut.symm⟩)).1 hrest
      obtain rfl : body = '\x7d' :: rest.chars := hclose
      have hexpr := Fragment.trimmed_upTo hfits hcut
      split at h
      next => cases h
      next hvalue =>
        cases h
        refine ⟨_, ?_, hexpr, hrestFits⟩
        rw [hchars, hcut]
        refine .output hrun fun hwhite => hvalue ?_
        show (Fragment.trimmed u.offset (upTo ('\x7d' :: rest.chars) u.chars)).value.isEmpty = true
        rw [hexpr]
        simp [Fragment.map, trim_eq_nil_iff.2 hwhite]

/-! ## Headers of any context -/

/-- A text that begins with a header of a context is read as that header. -/
theorem IsHeader.exists_extract (ht : t.Fits total) (h : IsHeader context t.chars expression rest) :
    ∃ x, extract context t = .ok x ∧ x.expression = expression.map (placeIn total) ∧
      x.rest.chars = rest ∧ x.rest.Fits total := by
  generalize hcs : t.chars = cs at h
  cases h with
  | switch hgap hblank hrun hlongest hend =>
    exact exists_extractSwitch ht hcs hgap hblank hrun.covers (stuck_of_longest hrun hlongest) hend
  | case hgap hblank hne hstart hrun =>
    exact exists_extractCase_case ht hcs hgap hblank hne hstart hrun.covers
  | default hblank => exact exists_extractCase_default ht hcs hblank
  | fallthrough hblank hend => exact exists_extractFallthrough ht hcs hblank hend
  | output hrun hvisible => exact exists_extractOutput ht hcs hrun.covers hvisible

/-- What is read as a header of a context is one. -/
theorem exists_isHeader (ht : t.Fits total) (h : extract context t = .ok x) :
    ∃ expression, IsHeader context t.chars expression x.rest.chars ∧
      x.expression = expression.map (placeIn total) ∧ x.rest.Fits total := by
  cases context with
  | switch => exact exists_isHeader_switch ht h
  | case => exact exists_isHeader_case ht h
  | fallthrough => exact exists_isHeader_fallthrough ht h
  | output => exact exists_isHeader_output ht h

/-! ## Cursors -/

/-- At a boundary of any source, an expression can be extracted exactly where a header of the
context begins. What is extracted then is the expression of that header at its place, and the
cursor moves behind the header. -/
theorem Cursor.extraction_iff_isHeader (source : Source) (offset : Nat) (context : Context)
    (hboundary : isBoundary offset source.chars = true) :
    ((∃ expression moved,
        (Cursor.mk source offset).extract? context = some (.ok expression, moved)) ↔
      ∃ expression rest, IsHeader context (dropBytes offset source.chars) expression rest) ∧
    ∀ expression rest, IsHeader context (dropBytes offset source.chars) expression rest →
      (Cursor.mk source offset).extract? context =
        some (.ok (expression.map source.placeBefore), ⟨source, placeIn source.length rest⟩) := by
  have hfits : (⟨offset, dropBytes offset source.chars⟩ : Tail).Fits source.length := by
    rw [source.length_eq]
    exact Tail.fits_dropBytes hboundary
  have htail : (Cursor.mk source offset).tail? = some ⟨offset, dropBytes offset source.chars⟩ :=
    if_pos hboundary
  have hread : ∀ expression rest, IsHeader context (dropBytes offset source.chars) expression rest →
      (Cursor.mk source offset).extract? context =
        some (.ok (expression.map source.placeBefore), ⟨source, placeIn source.length rest⟩) := by
    intro expression rest h
    obtain ⟨x, hx, hexpr, rfl, hrest⟩ := h.exists_extract hfits
    rw [Cursor.extract?, htail, Option.map_some, hx]
    simp only [hexpr, hrest.offset_eq]
    rfl
  refine ⟨⟨?_, fun ⟨expression, rest, h⟩ => ⟨_, _, hread expression rest h⟩⟩, hread⟩
  rintro ⟨expression, moved, h⟩
  rw [Cursor.extract?, htail, Option.map_some] at h
  split at h
  next x hx =>
    obtain ⟨header, hheader, -⟩ := exists_isHeader hfits hx
    exact ⟨header, _, hheader⟩
  next => cases h

/-- The brace inside of the literal does not end the expression. -/
theorem Cursor.extraction_iff_isHeader_quoted :
    isBoundary 3 "é \x7bf(\"\x7d\")\x7d".toList = true ∧
      ∃ expression : Fragment Position, expression.value = "f(\"\x7d\")" ∧
        (Cursor.mk (.ofString "é \x7bf(\"\x7d\")\x7d") 3).extract? .output =
          some (.ok expression, ⟨.ofString "é \x7bf(\"\x7d\")\x7d", 11⟩) := by
  refine ⟨by decide, _, ?_, ((Cursor.extraction_iff_isHeader (.ofString "é \x7bf(\"\x7d\")\x7d") 3
    .output (by decide)).2 (.ofRun "f(\"\x7d\")".toList ['\x7d']) [] ?_).trans rfl⟩
  · decide
  · have hliteral : IsLiteral ['"', '\x7d', '"'] :=
      .quoted (.inl rfl) (.plain (by decide) (by decide) (by decide) (by decide) .nil)
    have hgroup : IsItem .braced ['(', '"', '\x7d', '"', ')'] :=
      .group .round (by decide) (.cons (.literal hliteral) .nil)
    exact .output (.cons (.plain (by decide) (by decide)) (.cons hgroup .nil)) (by decide)

end SwitchMarkup

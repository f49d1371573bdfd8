import SwitchMarkup.Diagnostic.Basic
import SwitchMarkup.Proofs.Parser.Refusals
import SwitchMarkup.Proofs.Source.Order

/-!
# The line that a diagnostic shows

A position counts line feeds, and an excerpt counts lines, whose ends may be spelled in two ways.
Both come to the same line: the one around the place, from behind the line feed in front of it up to
the line end behind it. That line is long enough for the column of the place unless the place falls
inside a line end, between a carriage return and its line feed, and no failure of a parse does. Main
statement: `parse_error_excerpt`.
-/

namespace SwitchMarkup

variable {cs line before rest source : List Char} {c : Char} {cause : Cause}

/-! ## The line around a place -/

/-- The text without a carriage return at its end. -/
def dropReturn (cs : List Char) : List Char :=
  if cs.getLast? = some '\r' then cs.dropLast else cs

/-- The line around the place between two texts: what stands behind the last line feed of `before`
and in front of the first of `rest`, without a carriage return that belongs to the latter. -/
def lineAround (before rest : List Char) : List Char :=
  if '\n' ∈ rest then dropReturn (lastLine before ++ rest.takeWhile (· != '\n'))
  else lastLine before ++ rest

/-- The line around the place at an offset. -/
def lineHolding (offset : Nat) (cs : List Char) : List Char :=
  lineAround (takeBytes offset cs) (dropBytes offset cs)

theorem dropReturn_cons (h : line ≠ []) : dropReturn (c :: line) = c :: dropReturn line := by
  have hlast : (c :: line).getLast? = line.getLast? := by
    rw [List.getLast?_cons, List.getLast?_eq_some_getLast h]
    rfl
  unfold dropReturn
  rw [hlast]
  split
  · rw [List.dropLast_cons_of_ne_nil h]
  · rfl

theorem dropReturn_append (h : line ≠ []) : dropReturn (cs ++ line) = cs ++ dropReturn line := by
  induction cs with
  | nil => rfl
  | cons c cs ih =>
    have hne : cs ++ line ≠ [] := List.append_ne_nil_of_right_ne_nil cs h
    rw [List.cons_append, dropReturn_cons hne, ih]
    rfl

theorem isPrefix_dropReturn (cs : List Char) : dropReturn cs <+: cs := by
  unfold dropReturn
  split
  · exact List.dropLast_prefix cs
  · exact List.prefix_rfl

theorem newline_not_mem_lastLine (cs : List Char) : '\n' ∉ lastLine cs := by
  induction cs with
  | nil => exact List.not_mem_nil
  | cons c cs ih =>
    by_cases hfeed : '\n' ∈ c :: cs
    · rw [lastLine, if_pos hfeed]
      exact ih
    · rw [lastLine_of_not_mem hfeed]
      exact hfeed

/-- The text up to the first line feed. -/
theorem takeWhile_ne_newline (h : '\n' ∉ line) (cs : List Char) :
    (line ++ '\n' :: cs).takeWhile (· != '\n') = line := by
  refine takeWhile_run (fun c hc => ?_) (stops_cons.2 rfl)
  have hne : c ≠ '\n' := fun heq => h (heq ▸ hc)
  simpa using hne

/-! ## Counting lines -/

/-- A character that ends no line stands at the front of the first one. -/
theorem lines_cons (hfeed : c ≠ '\n') (hend : ¬(c = '\r' ∧ cs.head? = some '\n')) :
    lines (c :: cs) = (c :: (lines cs).headD []) :: (lines cs).tail := by
  rw [lines.eq_def]
  split
  · next h => cases h
  · next h => exact absurd (List.cons_eq_cons.1 h).1 hfeed
  · next h =>
    obtain ⟨rfl, rfl⟩ := List.cons_eq_cons.1 h
    exact absurd ⟨rfl, rfl⟩ hend
  · next h =>
    obtain ⟨rfl, rfl⟩ := List.cons_eq_cons.1 h
    cases lines _ with
    | nil => rfl
    | cons line rest => rfl

/-- A line feed ends the first line, together with a carriage return in front of it. -/
theorem lines_append_newline (h : '\n' ∉ line) (cs : List Char) :
    lines (line ++ '\n' :: cs) = dropReturn line :: lines cs := by
  induction line with
  | nil => rfl
  | cons c line ih =>
    have hfeed : c ≠ '\n' := Ne.symm (List.ne_of_not_mem_cons h)
    have hline : '\n' ∉ line := List.not_mem_of_not_mem_cons h
    cases line with
    | nil =>
      by_cases hc : c = '\r'
      · subst hc
        rfl
      · rw [List.cons_append, lines_cons hfeed (fun hend => hc hend.1), ih hline]
        have hkept : dropReturn [c] = [c] := if_neg (by simpa using hc)
        rw [hkept]
        rfl
    | cons d line =>
      have hd : d ≠ '\n' := Ne.symm (List.ne_of_not_mem_cons hline)
      have hend : ¬(c = '\r' ∧ (d :: line ++ '\n' :: cs).head? = some '\n') := by
        rintro ⟨-, hhead⟩
        exact hd (Option.some.inj hhead)
      rw [List.cons_append, lines_cons hfeed hend, ih hline,
        dropReturn_cons (List.cons_ne_nil d line)]
      rfl

/-- Text without a line feed is one line, or none if it is empty. -/
theorem headD_lines (h : '\n' ∉ line) : (lines line).headD [] = line := by
  induction line with
  | nil => rfl
  | cons c line ih =>
    have hline : '\n' ∉ line := List.not_mem_of_not_mem_cons h
    have hend : ¬(c = '\r' ∧ line.head? = some '\n') := by
      rintro ⟨-, hhead⟩
      exact hline (List.mem_of_head? hhead)
    rw [lines_cons (Ne.symm (List.ne_of_not_mem_cons h)) hend, List.headD_cons, ih hline]

/-- The line whose number is one more than the number of line feeds in front of a place is the line
around that place. -/
theorem lineAt_count (before rest : List Char) :
    lineAt (before.count '\n' + 1) (before ++ rest) = lineAround before rest := by
  rw [lineAt, Nat.add_sub_cancel]
  induction hcount : before.count '\n' generalizing before with
  | zero =>
    have hbefore : '\n' ∉ before := List.count_eq_zero.1 hcount
    rw [lineAround, lastLine_of_not_mem hbefore]
    split
    next hfeed =>
      obtain ⟨more, behind, rfl, hmore⟩ := List.eq_append_cons_of_mem hfeed
      rw [takeWhile_ne_newline hmore, ← List.append_assoc,
        lines_append_newline (List.not_mem_append hbefore hmore)]
      rfl
    next hfeed =>
      rw [← List.headD_eq_getD, headD_lines (List.not_mem_append hbefore hfeed)]
  | succ n ih =>
    have hfeed : '\n' ∈ before := List.count_pos_iff.1 (by omega)
    obtain ⟨first, more, rfl, hfirst⟩ := List.eq_append_cons_of_mem hfeed
    have hmore : more.count '\n' = n := by
      rw [List.count_append, List.count_eq_zero.2 hfirst, List.count_cons_self] at hcount
      omega
    rw [List.append_assoc, List.cons_append, lines_append_newline hfirst, List.getD_cons_succ,
      ih more hmore, lineAround, lineAround, lastLine_append_newline]

/-! ## The column on its line -/

/-- The place is inside a line end: behind its carriage return and in front of its line feed. -/
def InsideLineEnd (before rest : List Char) : Prop :=
  before.getLast? = some '\r' ∧ rest.head? = some '\n'

theorem getLast?_lastLine (h : (lastLine before).getLast? = some c) : before.getLast? = some c := by
  induction before with
  | nil => cases h
  | cons d before ih =>
    by_cases hfeed : '\n' ∈ d :: before
    · rw [lastLine, if_pos hfeed] at h
      rw [List.getLast?_cons, ih h]
      rfl
    · rw [lastLine_of_not_mem hfeed] at h
      exact h

/-- The line around a place is what stands in front of the place on its line and then what stands
behind it. -/
theorem exists_lineAround_append (h : ¬InsideLineEnd before rest) :
    ∃ token, lineAround before rest = lastLine before ++ token ∧ token <+: rest ∧ '\n' ∉ token := by
  unfold lineAround
  split
  next hfeed =>
    obtain ⟨more, behind, rfl, hmore⟩ := List.eq_append_cons_of_mem hfeed
    rw [takeWhile_ne_newline hmore]
    by_cases hnil : more = []
    · subst hnil
      refine ⟨[], ?_, List.nil_prefix, List.not_mem_nil⟩
      -- The line feed comes next, so there is no carriage return to drop.
      have hkept : (lastLine before).getLast? ≠ some '\r' :=
        fun hlast => h ⟨getLast?_lastLine hlast, rfl⟩
      rw [List.append_nil, dropReturn, if_neg hkept]
    · refine ⟨dropReturn more, dropReturn_append hnil, ?_, fun hmem => ?_⟩
      · exact (isPrefix_dropReturn more).trans (List.prefix_append ..)
      · exact hmore ((isPrefix_dropReturn more).mem hmem)
  next hfeed => exact ⟨rest, rfl, List.prefix_rfl, hfeed⟩

/-- What a failure is about never stands inside a line end. -/
theorem Cause.Blames.not_insideLineEnd (h : cause.Blames before rest) :
    ¬InsideLineEnd before rest := by
  rintro ⟨hreturn, hfeed⟩
  have hrest : rest ≠ [] := by
    rintro rfl
    cases hfeed
  have hword : ∀ {word : List Char}, word <+: rest → word ≠ [] → word.head? = some '\n' := by
    rintro word ⟨more, rfl⟩ hne
    obtain ⟨c, word, rfl⟩ := List.exists_cons_of_ne_nil hne
    exact hfeed
  have hopens : ¬OpensClause rest := by
    rintro (hcase | hdefault)
    · cases hword hcase (by decide)
    · cases hword hdefault (by decide)
  cases cause with
  | invalidExpression context expected =>
    cases context with
    | switch =>
      cases expected with
      | endOfLine =>
        obtain ⟨c, hc, hdelimiter, -⟩ := h
        cases hfeed.symm.trans hc
        exact absurd hdelimiter (by decide)
      | switchHeader | clauseHeader | caseList | fallthroughLine | bracedExpression => exact h
    | case =>
      cases expected with
      | clauseHeader => exact hopens h
      | caseList =>
        -- The blanks in front of the list, of which there is one at least, end the text before.
        obtain ⟨⟨gap, hgap, front, rfl⟩, -, -⟩ := h
        have hblank : IsRun isBlank (' ' :: gap) := isRun_cons.2 ⟨rfl, hgap⟩
        have hends : (front ++ (Keyword.spaced Keyword.case ++ gap)).getLast? =
            (' ' :: gap).getLast? := by
          refine getLast?_of_suffix ⟨front ++ Keyword.case, ?_⟩ (List.cons_ne_nil _ _)
          rw [Keyword.spaced, List.append_assoc, List.append_assoc]
          rfl
        rw [hends] at hreturn
        cases hblank _ (List.mem_of_getLast? hreturn)
      | switchHeader | fallthroughLine | endOfLine | bracedExpression => exact h
    | fallthrough =>
      cases expected with
      | endOfLine =>
        obtain ⟨-, c, hc, -, hne, -⟩ := h
        cases hfeed.symm.trans hc
        exact hne rfl
      | switchHeader | clauseHeader | caseList | fallthroughLine | bracedExpression => exact h
    | output =>
      cases expected with
      | bracedExpression => cases hword h (by decide)
      | switchHeader | clauseHeader | caseList | fallthroughLine | endOfLine => exact h
  | unexpected c => cases hword h.2 (by decide)
  | missingClosingBrace =>
    rcases h with hnil | ⟨-, c, hc, hvisible, -⟩
    · exact hrest hnil
    · cases hfeed.symm.trans hc
      cases hvisible
  | missingNodes => exact hrest h
  | missingExpression | unterminatedHeader | nestingTooDeep | fallthroughOutsideCase
  | fallthroughNotLast | fallthroughInFinalCase => cases hword h (by decide)

/-! ## Failures of a parse -/

/-- A parse fails at a place between two characters, where its cause belongs. -/
theorem exists_blames_of_parse {source : String} {o : Options} {failure : Failure Position}
    (h : parse source o = .error failure) :
    ∃ before rest, before ++ rest = source.toList ∧ failure.cause.Blames before rest ∧
      failure.place =
        ⟨byteLength before, before.count '\n' + 1, (lastLine before).length + 1⟩ := by
  rw [parse, parseWithEvents, Outcome.map] at h
  cases hresult : (readSource o source.toList).result with
  | ok nodes =>
    rw [hresult] at h
    cases h
  | error refused =>
    rw [hresult] at h
    cases h
    obtain ⟨before, rest, hsource, hplace, hblames⟩ :=
      run_placed o .initial _ (Stage.standsAt_initial source.toList) keepsKeywords_initial hresult
    refine ⟨before, rest, hsource, hblames, ?_⟩
    show (Source.ofString source).positionAt refused.place = _
    rw [hplace, Source.positionAt_byteLength hsource]

theorem lineHolding_eq (h : before ++ rest = source) :
    lineHolding (byteLength before) source = lineAround before rest := by
  rw [lineHolding, ← h, takeBytes_append, dropBytes_append]

/-- The line of a failure: `front` stands in front of its place, and `token` begins there. -/
theorem exists_line_of_parse {source : String} {o : Options} {failure : Failure Position}
    (h : parse source o = .error failure) :
    ∃ front token, lineHolding failure.place.index source.toList = front ++ token ∧
      lineAt failure.place.line source.toList = front ++ token ∧
      failure.place.column = front.length + 1 ∧
      token <+: dropBytes failure.place.index source.toList ∧
      '\n' ∉ front ∧ '\n' ∉ token := by
  obtain ⟨before, rest, hsource, hblames, hplace⟩ := exists_blames_of_parse h
  obtain ⟨token, hline, htoken, hone⟩ := exists_lineAround_append hblames.not_insideLineEnd
  rw [hplace]
  refine ⟨lastLine before, token, ?_, ?_, rfl, ?_, newline_not_mem_lastLine before, hone⟩
  · rw [lineHolding_eq hsource, hline]
  · rw [← hsource, lineAt_count, hline]
  · rw [← hsource, dropBytes_append]
    exact htoken

/-- The indent under a line has a tab under each tab and a space under every other character. -/
theorem getElem?_indentTo {column k : Nat} (hk : k < column - 1) (cs : List Char) :
    (indentTo column cs)[k]? = cs[k]?.map fun c => if c = '\t' then '\t' else ' ' := by
  rw [indentTo, List.getElem?_map, List.getElem?_take_of_lt hk]

/-- The text of a failure around its excerpt and the line with the caret. -/
theorem Failure.format_diagnostic (failure : Failure Position) (source : String)
    (name : Option String) {excerpt caret : List Char}
    (hexcerpt : failure.diagnostic.excerptLine source.toList = excerpt)
    (hcaret : failure.diagnostic.caretLine source.toList = caret) :
    failure.diagnostic.format source name =
      String.ofList ("Error: ".toList ++ failure.cause.message.toList ++ "\n --> ".toList ++
        failure.diagnostic.location name ++ "\n  |\n".toList ++ excerpt ++ ['\n'] ++ caret ++
        failure.diagnostic.hintLine) := by
  subst hexcerpt hcaret
  rfl

theorem Failure.position_diagnostic (failure : Failure Position) :
    failure.diagnostic.position = failure.place := rfl

/-- The excerpt of a failure is the line around its place, and the caret stands behind one character
for each of those in front of the place on that line: a tab for a tab and a space for any other. -/
theorem parse_error_excerpt (source : String) (o : Options) (name : Option String)
    (failure : Failure Position) (h : parse source o = .error failure) :
    ∃ indent : List Char,
      failure.diagnostic.format source name =
        String.ofList ("Error: ".toList ++ failure.cause.message.toList ++ "\n --> ".toList ++
          failure.diagnostic.location name ++ "\n  |\n".toList ++
          (padLeft 3 (toString failure.place.line).toList ++ " | ".toList ++
            lineHolding failure.place.index source.toList) ++
          ['\n'] ++ ("    | ".toList ++ indent ++ ['^']) ++ failure.diagnostic.hintLine) ∧
      indent.length = failure.place.column - 1 ∧
      ∀ k < failure.place.column - 1, ∃ c,
        (lineHolding failure.place.index source.toList)[k]? = some c ∧
          indent[k]? = some (if c = '\t' then '\t' else ' ') := by
  obtain ⟨front, token, hholding, hnumber, hcolumn, -, -, -⟩ := exists_line_of_parse h
  refine ⟨indentTo failure.place.column (front ++ token), ?_, ?_, ?_⟩
  · refine failure.format_diagnostic source name ?_ ?_
    · unfold Diagnostic.excerptLine
      rw [failure.position_diagnostic, hnumber, hholding]
    · unfold Diagnostic.caretLine
      rw [failure.position_diagnostic, hnumber]
  · rw [indentTo, hcolumn, Nat.add_sub_cancel, List.length_map, List.take_left]
  · intro k hk
    have hlength : k < (front ++ token).length := by
      rw [List.length_append]
      omega
    refine ⟨(front ++ token)[k], ?_, ?_⟩
    · rw [hholding]
      exact List.getElem?_eq_getElem hlength
    · rw [getElem?_indentTo hk, List.getElem?_eq_getElem hlength]
      rfl

/-- A tab and a wide character stand in front of the place, and the line ends in two characters. -/
theorem parse_error_excerpt_tabbed :
    ∃ indent : List Char, indent.length = 2 ∧
      ∀ k < 2, ∃ c, "\té\x7d".toList[k]? = some c ∧
        indent[k]? = some (if c = '\t' then '\t' else ' ') := by
  have hparse : parse "a\n\té\x7d\r\nb" = .error ⟨⟨5, 2, 3⟩, .unexpected '\x7d'⟩ := by
    decide +kernel
  have hline : lineHolding 5 "a\n\té\x7d\r\nb".toList = "\té\x7d".toList := by
    decide +kernel
  obtain ⟨indent, -, hlength, hindent⟩ := parse_error_excerpt _ _ none _ hparse
  rw [hline] at hindent
  exact ⟨indent, hlength, hindent⟩

end SwitchMarkup

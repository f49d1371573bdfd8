import SwitchMarkup.Proofs.Diagnostic.Excerpt

/-!
# Where the caret stands

The line of an excerpt begins with its number, which takes three columns or more; the line under it
begins with a gutter of fixed width. So the caret stands under the character that a failure is about
as long as the number has no more than three digits, and too far to the left from line 1000 on. Main
statement: `parse_error_caret_iff`.
-/

namespace SwitchMarkup

variable {cs before rest : List Char}

theorem length_padLeft (width : Nat) (cs : List Char) :
    (padLeft width cs).length = max width cs.length := by
  rw [padLeft, List.length_append, List.length_replicate]
  omega

/-- The numbers with three digits or fewer are those below one thousand. -/
theorem length_toString_le_iff (n : Nat) : (toString n).toList.length ≤ 3 ↔ n < 1000 := by
  rw [String.length_toList]
  exact Nat.length_repr_le_iff (by decide)

theorem length_indentTo_append (cs token : List Char) :
    (indentTo (cs.length + 1) (cs ++ token)).length = cs.length := by
  rw [indentTo, List.length_map, Nat.add_sub_cancel, List.take_left]

/-- An indent holds tabs and spaces only. -/
theorem isBlank_of_mem_indentTo {column : Nat} {c : Char} (h : c ∈ indentTo column cs) :
    isBlank c = true := by
  obtain ⟨d, -, rfl⟩ := List.mem_map.1 h
  by_cases hd : d = '\t'
  · rw [if_pos hd]
    rfl
  · rw [if_neg hd]
    rfl

/-- No number is written with a line feed. -/
theorem newline_not_mem_toString (n : Nat) : '\n' ∉ (toString n).toList := by
  intro hmem
  have hdigits : '\n' ∈ Nat.toDigits 10 n := by
    rw [← Nat.toList_repr]
    exact hmem
  cases Nat.isDigit_of_mem_toDigits (by decide) (by decide) hdigits

/-- The gutter of an excerpt is on one line. -/
theorem newline_not_mem_gutter (n : Nat) :
    '\n' ∉ padLeft 3 (toString n).toList ++ " | ".toList := by
  have hpad : '\n' ∉ List.replicate (3 - (toString n).toList.length) ' ' := fun hmem =>
    absurd (List.mem_replicate.1 hmem).2 (by decide)
  have hbar : '\n' ∉ " | ".toList := by decide
  exact List.not_mem_append (List.not_mem_append hpad (newline_not_mem_toString n)) hbar

/-- The line of the caret has blanks and the bar of its gutter in front of the caret. -/
theorem isBlank_of_mem_caretGutter {column : Nat} {c : Char}
    (h : c ∈ "    | ".toList ++ indentTo column cs) : isBlank c = true ∨ c = '|' := by
  rcases List.mem_append.1 h with hgutter | hindent
  · have hall : ∀ d ∈ "    | ".toList, isBlank d = true ∨ d = '|' := by simp [isBlank]
    exact hall c hgutter
  · exact .inl (isBlank_of_mem_indentTo hindent)

/-- The excerpt goes on, behind `upper`, with the text at the place of the failure, and the caret
stands behind `lower` on the line below: they are of one length, so that the caret stands under that
text, exactly if the number of the line is below one thousand. -/
theorem parse_error_caret_iff (source : String) (o : Options) (name : Option String)
    (failure : Failure Position) (h : parse source o = .error failure) :
    ∃ upper token lower : List Char,
      failure.diagnostic.format source name =
        String.ofList ("Error: ".toList ++ failure.cause.message.toList ++ "\n --> ".toList ++
          failure.diagnostic.location name ++ "\n  |\n".toList ++ (upper ++ token) ++ ['\n'] ++
          (lower ++ ['^']) ++ failure.diagnostic.hintLine) ∧
      upper = padLeft 3 (toString failure.place.line).toList ++ " | ".toList ++
        (lineHolding failure.place.index source.toList).take (failure.place.column - 1) ∧
      token <+: dropBytes failure.place.index source.toList ∧
      '\n' ∉ upper ++ token ∧ '\n' ∉ lower ∧ '^' ∉ lower ∧
      (lower.length = upper.length ↔ failure.place.line < 1000) := by
  obtain ⟨front, token, hholding, hnumber, hcolumn, htoken, hfront, hone⟩ := exists_line_of_parse h
  have hblank : ∀ c ∈ "    | ".toList ++ indentTo failure.place.column (front ++ token),
      isBlank c = true ∨ c = '|' := fun _ => isBlank_of_mem_caretGutter
  refine ⟨padLeft 3 (toString failure.place.line).toList ++ " | ".toList ++ front, token,
    "    | ".toList ++ indentTo failure.place.column (front ++ token),
    ?_, ?_, htoken, ?_, ?_, ?_, ?_⟩
  · refine failure.format_diagnostic source name ?_ ?_
    · unfold Diagnostic.excerptLine
      rw [failure.position_diagnostic, hnumber, ← List.append_assoc]
    · unfold Diagnostic.caretLine
      rw [failure.position_diagnostic, hnumber]
  · rw [hholding, hcolumn, Nat.add_sub_cancel, List.take_left]
  · exact List.not_mem_append (List.not_mem_append (newline_not_mem_gutter _) hfront) hone
  · exact fun hmem => absurd (hblank _ hmem) (by decide)
  · exact fun hmem => absurd (hblank _ hmem) (by decide)
  · have hgutter : " | ".toList.length = 3 := rfl
    have hfixed : "    | ".toList.length = 6 := rfl
    rw [List.length_append, List.length_append, List.length_append, hcolumn,
      length_indentTo_append, length_padLeft, hgutter, hfixed, ← length_toString_le_iff]
    omega

/-- A brace that closes nothing is refused behind any number of empty lines. -/
theorem parse_feeds_brace (n : Nat) :
    parse (String.ofList (List.replicate n '\n' ++ ['\x7d'])) =
      .error ⟨⟨n, n + 1, 1⟩, .unexpected '\x7d'⟩ := by
  have hrun : IsRun isWhiteSpace (List.replicate n '\n') := isRun_replicate rfl n
  have hbrace : Stops isWhiteSpace ['\x7d'] := stops_cons.2 rfl
  have hskip : (Tail.start (List.replicate n '\n' ++ ['\x7d'])).skipWhiteSpace =
      ⟨byteLength (List.replicate n '\n'), ['\x7d']⟩ := by
    rw [Tail.skipWhiteSpace, Tail.skipWhile, Tail.start, takeWhile_run hrun hbrace,
      dropWhile_run hrun hbrace, Nat.zero_add]
  have hread : readSource {} (List.replicate n '\n' ++ ['\x7d']) =
      ⟨[], .error ⟨byteLength (List.replicate n '\n'), .unexpected '\x7d'⟩⟩ := by
    rw [readSource, run_eq, Stage.initial, step, stepBody, hskip]
    rfl
  obtain ⟨hlength, hlast⟩ : byteLength (List.replicate n '\n') = n ∧
      lastLine (List.replicate n '\n') = [] := by
    clear hrun hskip hread
    induction n with
    | zero => exact ⟨rfl, rfl⟩
    | succ n ih =>
      rw [List.replicate_succ, byteLength_cons, lastLine_newline, ih.1, ih.2]
      exact ⟨Nat.add_comm 1 n, rfl⟩
  have hplace := Source.positionAt_byteLength
    (String.toList_ofList (l := List.replicate n '\n' ++ ['\x7d'])).symm
  rw [hlength, List.count_replicate_self, hlast] at hplace
  rw [hlength] at hread
  rw [parse, parseWithEvents, String.toList_ofList, hread]
  show Except.error (Failure.mk (Source.positionAt _ n) _) = _
  rw [hplace]
  rfl

/-- The first character of line 1000 is refused, and the caret stands one column in front of it. -/
theorem parse_error_caret_iff_thousand :
    ∃ upper lower, lower.length ≠ upper.length ∧ '^' ∉ lower ∧ ∃ head token tail,
      (⟨⟨999, 1000, 1⟩, .unexpected '\x7d'⟩ : Failure Position).diagnostic.format
          (String.ofList (List.replicate 999 '\n' ++ ['\x7d'])) none =
        String.ofList (head ++ (upper ++ token) ++ ['\n'] ++ (lower ++ ['^']) ++ tail) := by
  obtain ⟨upper, token, lower, hformat, -, -, -, -, hcaret, haligned⟩ :=
    parse_error_caret_iff _ _ none _ (parse_feeds_brace 999)
  refine ⟨upper, lower, fun hlength => ?_, hcaret, _, token, _, hformat⟩
  exact absurd (haligned.1 hlength) (by decide)

end SwitchMarkup

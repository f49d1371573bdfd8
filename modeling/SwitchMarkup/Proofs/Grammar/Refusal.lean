import SwitchMarkup.Proofs.Grammar.Extraction

/-!
# Where a header is refused

What stands at the place of a failure, for each cause: the character that cannot go on there, or the
keyword or brace of the construct that is not well formed. Each reader of a header fails at such a
place. Main statements: `extractSwitch_placed`, `extractCase_placed`, `extractFallthrough_placed` and
`extractOutput_placed`.
-/

namespace SwitchMarkup

open Items

variable {cs rest source : List Char} {t : Tail} {x : Extraction} {cause : Cause}
  {failure : Failure Nat}

/-! ## What stands at a failure -/

/-- The text stands directly behind the line of the header of a switch, up to white space. -/
def BehindSwitchHeader (source rest : List Char) : Prop :=
  ∃ text tag gap, text <:+ source ∧ ReadsSwitchHeader text tag (gap ++ rest) ∧
    IsRun isWhiteSpace gap

/-- What stands at the place of a failure, between the texts `before` and `rest`. A tag, a list or a
`fallthrough` is refused where it cannot go on, other constructs at their first character, and a
missing brace where it should have been. -/
def Cause.Blames (before rest : List Char) : Cause → Prop
  | invalidExpression .switch .endOfLine => ∃ c ∈ rest.head?, c ∈ delimiters ∧ c ≠ '\x7b'
  | invalidExpression .case .clauseHeader => OpensClause rest
  | invalidExpression .case .caseList =>
    (∃ gap, IsRun isBlank gap ∧ Keyword.spaced Keyword.case ++ gap <:+ before) ∧
      Stops isBlank rest ∧ Stuck .list rest
  | invalidExpression .fallthrough .endOfLine =>
    (∃ gap, IsRun isBlank gap ∧ Keyword.fallthrough ++ gap <:+ before) ∧
      ∃ c ∈ rest.head?, isBlank c = false ∧ c ≠ '\n' ∧ c ≠ '\r'
  | invalidExpression .output .bracedExpression => ['\x7b'] <+: rest
  | invalidExpression _ _ => False
  | missingExpression => ['\x7b'] <+: rest
  | unexpected c => c = '\x7d' ∧ ['\x7d'] <+: rest
  | unterminatedHeader => Keyword.spaced Keyword.switch <+: rest
  | missingClosingBrace =>
    rest = [] ∨ BehindSwitchHeader (before ++ rest) rest ∧
      ∃ c ∈ rest.head?, isWhiteSpace c = false ∧ c ≠ '\x7d' ∧ ¬OpensClause rest
  | missingNodes => rest = []
  | nestingTooDeep _ => Keyword.spaced Keyword.switch <+: rest
  | fallthroughOutsideCase => Keyword.fallthrough <+: rest
  | fallthroughNotLast => Keyword.fallthrough <+: rest
  | fallthroughInFinalCase => Keyword.fallthrough <+: rest

/-- The failure is at a place of the source where its cause belongs. -/
def Failure.PlacedIn (source : List Char) (failure : Failure Nat) : Prop :=
  ∃ before rest, before ++ rest = source ∧ failure.place = byteLength before ∧
    failure.cause.Blames before rest

/-- A failure at an end of the source stands there if its cause blames what comes next. -/
theorem Failure.placedIn_placeIn (hrest : rest <:+ source)
    (h : ∀ before, before ++ rest = source → cause.Blames before rest) :
    Failure.PlacedIn source ⟨placeIn (byteLength source) rest, cause⟩ := by
  obtain ⟨before, rfl⟩ := hrest
  exact ⟨before, rest, rfl, placeIn_append_right before rest, h before rfl⟩

theorem Tail.EndOf.placedIn (ht : t.EndOf source)
    (h : ∀ before, before ++ t.chars = source → cause.Blames before t.chars) :
    Failure.PlacedIn source ⟨t.offset, cause⟩ := by
  rw [ht.fits.offset_eq]
  exact Failure.placedIn_placeIn ht.suffix h

/-! ## Where items stop -/

theorem exists_of_not_endsLine (h : ¬EndsLine cs) : ∃ c ∈ cs.head?, isLineBreak c = false := by
  cases cs with
  | nil => exact absurd (fun _ hc => nomatch hc) h
  | cons c cs =>
    refine ⟨c, rfl, Bool.eq_false_iff.2 fun hbreak => h ?_⟩
    rintro d ⟨rfl⟩
    exact hbreak

/-- Within its line a tag can stop only at a delimiter. -/
theorem exists_delimiter_of_stuck (hstuck : Stuck .tag cs) (hline : ¬EndsLine cs) :
    ∃ c ∈ cs.head?, c ∈ delimiters := by
  obtain ⟨c, hc, hbreak⟩ := exists_of_not_endsLine hline
  refine ⟨c, hc, ?_⟩
  rw [← isDelimiter_iff]
  cases hplain : isDelimiter c with
  | true => rfl
  | false =>
    have hadmits : Kind.tag.admitsPlain c = true := by
      rw [isLineBreak, Bool.or_eq_false_iff] at hbreak
      simp [Kind.admitsPlain, hplain, bne, hbreak]
    obtain ⟨ds, rfl⟩ : ∃ ds, cs = c :: ds := List.head?_eq_some_iff.1 hc
    have hitem := stuck_cons_iff.1 hstuck
    rw [afterItem?_plain hplain, if_pos hadmits] at hitem
    cases hitem

/-! ## Headers -/

/-- A tag is refused at the delimiter at which it stops. -/
theorem extractSwitch_placed (ht : t.EndOf source)
    (hkeyword : Keyword.spaced Keyword.switch <+: t.chars) (h : extractSwitch t = .error failure) :
    failure.PlacedIn source := by
  obtain ⟨u, gap, cs, hu, hfits, rfl, hchars, -, -⟩ := exists_spaced_append ht.fits hkeyword
  have hsuffix : u.chars <:+ t.chars :=
    ⟨Keyword.spaced Keyword.switch ++ gap, by rw [hchars, List.append_assoc]⟩
  obtain ⟨-, -, -, hstuck⟩ := exists_covers_append .tag u.chars
  have hrest := Tail.EndOf.goTo ⟨hfits, hsuffix.trans ht.suffix⟩ (afterItems_suffix .tag u.chars)
  simp only [extractSwitch, hu] at h
  split at h
  · cases h
  next hend =>
    rw [Bool.or_eq_true, not_or, Tail.startsWith_iff, Tail.atLineBreak_iff] at hend
    cases h
    refine hrest.placedIn fun before _ => ?_
    obtain ⟨c, hc, hdelimiter⟩ := exists_delimiter_of_stuck hstuck hend.2
    refine ⟨c, hc, hdelimiter, ?_⟩
    rintro rfl
    obtain ⟨more, hmore⟩ := List.head?_eq_some_iff.1 hc
    exact hend.1 ⟨more, hmore.symm⟩

/-- A list without an item is refused behind the blanks, a clause header without a colon at its
keyword. -/
theorem extractCase_placed (ht : t.EndOf source) (hopens : OpensClause t.chars)
    (h : extractCase t = .error failure) : failure.PlacedIn source := by
  have hheader : Failure.PlacedIn source ⟨t.offset, .invalidExpression .case .clauseHeader⟩ :=
    ht.placedIn fun _ _ => hopens
  rcases hopens with hkeyword | hkeyword
  · obtain ⟨u, gap, cs, hu, hfits, rfl, hchars, hgap, hstart⟩ :=
      exists_spaced_append ht.fits hkeyword
    have hsuffix : u.chars <:+ t.chars :=
      ⟨Keyword.spaced Keyword.case ++ gap, by rw [hchars, List.append_assoc]⟩
    simp only [extractCase, hu] at h
    split at h
    next hlength =>
      cases h
      have hu' : u.EndOf source := ⟨hfits, hsuffix.trans ht.suffix⟩
      refine hu'.placedIn fun before hbefore => ⟨⟨gap, hgap, ?_⟩, hstart, ?_⟩
      · have hwhole := ht.suffix
        rw [hchars, ← List.append_assoc, ← hbefore] at hwhole
        exact List.suffix_append_self_iff.1 hwhole
      · exact (afterItems_suffix .list u.chars).eq_of_length hlength
    next =>
      split at h
      · cases h
      · cases h
        exact hheader
  · simp only [extractCase, drop?_case_of_default hkeyword] at h
    split at h
    · cases h
    · cases h
      exact hheader

/-- A `fallthrough` is refused at what stands behind it on its line. -/
theorem extractFallthrough_placed (ht : t.EndOf source) (hkeyword : Keyword.fallthrough <+: t.chars)
    (h : extractFallthrough t = .error failure) : failure.PlacedIn source := by
  obtain ⟨more, hmore⟩ := hkeyword
  obtain ⟨u, hu, rfl, hfits⟩ := Tail.drop?_append ht.fits Keyword.fallthrough more hmore.symm
  have hcut : u.chars.takeWhile isBlank ++ u.skipBlanks.chars = u.chars :=
    List.takeWhile_append_dropWhile
  have hsuffix : u.skipBlanks.chars <:+ t.chars :=
    (Tail.skipWhile_suffix isBlank u).trans ⟨Keyword.fallthrough, hmore⟩
  have hrest : u.skipBlanks.EndOf source :=
    ⟨hfits.skipWhile isBlank, hsuffix.trans ht.suffix⟩
  simp only [extractFallthrough, hu] at h
  split at h
  · cases h
  next hline =>
    rw [Tail.atLineBreak_iff] at hline
    cases h
    refine hrest.placedIn fun before hbefore => ⟨⟨u.chars.takeWhile isBlank, ?_, ?_⟩, ?_⟩
    · exact isRun_takeWhile isBlank u.chars
    · have hwhole := ht.suffix
      rw [← hmore, ← hcut, ← List.append_assoc, ← hbefore] at hwhole
      exact List.suffix_append_self_iff.1 hwhole
    · obtain ⟨c, hc, hbreak⟩ := exists_of_not_endsLine hline
      rw [isLineBreak, Bool.or_eq_false_iff] at hbreak
      exact ⟨c, hc, stops_dropWhile isBlank u.chars c hc, beq_eq_false_iff_ne.1 hbreak.1,
        beq_eq_false_iff_ne.1 hbreak.2⟩

/-- An expression in braces is refused at its opening brace. -/
theorem extractOutput_placed (ht : t.EndOf source) (hbrace : ['\x7b'] <+: t.chars)
    (h : extractOutput t = .error failure) : failure.PlacedIn source := by
  have hinvalid : Failure.PlacedIn source ⟨t.offset, .invalidExpression .output .bracedExpression⟩ :=
    ht.placedIn fun _ _ => hbrace
  simp only [extractOutput] at h
  split at h
  · cases h
    exact hinvalid
  · split at h
    · cases h
      exact hinvalid
    · split at h
      · cases h
        exact ht.placedIn fun _ _ => hbrace
      · cases h

end SwitchMarkup

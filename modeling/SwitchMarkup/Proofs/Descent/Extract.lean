import SwitchMarkup.Proofs.Descent.Cursor
import SwitchMarkup.Proofs.Parser.Shift

/-!
# Extracting expressions from a cursor

The grammar of a header is matched against the text that is left, and what it gives are offsets
into that text: of the piece that holds the expression and of the end of the header, or of the
place that does not fit. The expression is cut out and trimmed, and its offsets are added to the one
of the cursor and resolved. All of these offsets are boundaries, so that an expression is read as it
is from a tail. Main statement: `readExpression_on`.
-/

namespace SwitchMarkup.Descent

open SwitchMarkup.Descent.Action

variable {c : Cursor} {t u : Tail} {cs : List Char} {context : Context}

/-! ## The grammar -/

/-- What the grammar makes of a header. Offsets count from the start of the text that is matched. -/
structure Match where
  /-- The stretch of the piece that holds the expression. -/
  piece : Span Nat
  /-- Whether the piece stands for the word `default`, whatever follows the word in it. -/
  isDefault : Bool
  /-- The end of the header. -/
  stop : Nat

/-- The text of the piece that holds the expression. -/
def Match.text (header : Match) (cs : List Char) : Except Fault (List Char) :=
  if header.isDefault then .ok Keyword.default else cut cs header.piece.start header.piece.stop

/-- Matches `switch`, blanks and a tag. -/
def matchSwitch (cs : List Char) : Except (Nat × Expected) Match :=
  match ((Tail.start cs).drop? Keyword.switch).bind Tail.skipBlanks? with
  | none => .error (0, .switchHeader)
  | some u =>
    let rest := u.goTo (Items.afterItems .tag u.chars)
    if rest.startsWith ['\x7b'] || rest.atLineBreak then
      .ok ⟨⟨u.offset, rest.offset⟩, false, rest.offset⟩
    else .error (rest.offset, .endOfLine)

/-- Matches `case`, blanks, a list and a colon, or `default`, blanks and a colon. -/
def matchCase (cs : List Char) : Except (Nat × Expected) Match :=
  match ((Tail.start cs).drop? Keyword.case).bind Tail.skipBlanks? with
  | some u =>
    let list := u.goTo (Items.afterItems .list u.chars)
    if list.chars.length = u.chars.length then .error (u.offset, .caseList)
    else match list.drop? [':'] with
      | some rest => .ok ⟨⟨u.offset, list.offset⟩, false, rest.offset⟩
      | none => .error (0, .clauseHeader)
  | none =>
    match ((Tail.start cs).drop? Keyword.default).bind fun u => u.skipBlanks.drop? [':'] with
    | some rest => .ok ⟨⟨0, rest.offset⟩, true, rest.offset⟩
    | none => .error (0, .clauseHeader)

/-- Matches `fallthrough` and blanks up to the end of the line. -/
def matchFallthrough (cs : List Char) : Except (Nat × Expected) Match :=
  match (Tail.start cs).drop? Keyword.fallthrough with
  | none => .error (0, .fallthroughLine)
  | some u =>
    if u.skipBlanks.atLineBreak then .ok ⟨⟨0, u.offset⟩, false, u.skipBlanks.offset⟩
    else .error (u.skipBlanks.offset, .endOfLine)

/-- Matches items in braces. -/
def matchOutput (cs : List Char) : Except (Nat × Expected) Match :=
  match (Tail.start cs).drop? ['\x7b'] with
  | none => .error (0, .bracedExpression)
  | some u =>
    let body := u.goTo (Items.afterItems .braced u.chars)
    match body.drop? ['\x7d'] with
    | none => .error (0, .bracedExpression)
    | some rest => .ok ⟨⟨u.offset, body.offset⟩, false, rest.offset⟩

/-- Matches the header of a context against the start of a text. -/
def matchHeader : Context → List Char → Except (Nat × Expected) Match
  | .switch => matchSwitch
  | .case => matchCase
  | .fallthrough => matchFallthrough
  | .output => matchOutput

/-! ## The expression of a header -/

/-- Cuts out the expression of a header that stands at the offset `base` in front of the text
`rest`, and moves behind the header. -/
def takeHeader (context : Context) (base : Nat) (rest : List Char) (header : Match) :
    Action Cursor (Fragment Position) := do
  let text ← check (header.text rest)
  let leading ← check (minus (byteLength text) (byteLength (trimStart text)))
  let value := trim text
  if value.isEmpty && context == .output then refuseAt base .missingExpression
  else
    let start := base + header.piece.start + leading
    let span ← spanBetween start (start + byteLength value)
    seek (base + header.stop)
    return ⟨String.ofList value, span⟩

/-- Reads an expression with its header and moves behind the header. -/
def readExpression (context : Context) : Action Cursor (Fragment Position) := do
  let base := (← get).index
  let rest ← remaining
  match matchHeader context rest with
  | .error (offset, expected) => refuseAt (base + offset) (.invalidExpression context expected)
  | .ok header => takeHeader context base rest header

/-! ## What the grammar gives -/

/-- The trimmed piece `text` at an offset, read up to `rest`. It may be empty except in braces. -/
def extraction (context : Context) (offset : Nat) (text : List Char) (rest : Tail) :
    Except (Failure Nat) Extraction :=
  if (trim text).isEmpty && context == .output then .error ⟨0, .missingExpression⟩
  else .ok ⟨.trimmed offset text, rest⟩

/-- A match of the header and an extraction from the text `cs` are of one kind, and all offsets of
the match are boundaries of the text. -/
inductive Matches (context : Context) (cs : List Char) :
    Except (Nat × Expected) Match → Except (Failure Nat) Extraction → Prop where
  | refused {u : Tail} (expected : Expected) (hu : u.EndOf cs) :
    Matches context cs (.error (u.offset, expected))
      (.error ⟨u.offset, .invalidExpression context expected⟩)
  | found {header : Match} {text front back : List Char} {rest : Tail}
      (htext : header.text cs = .ok text) (hsplit : cs = front ++ (text ++ back))
      (hstart : header.piece.start = byteLength front) (hrest : rest.EndOf cs)
      (hstop : header.stop = rest.offset) :
    Matches context cs (.ok header) (extraction context header.piece.start text rest)

/-- Outside of braces the piece may be empty. -/
theorem Matches.found_trimmed (header : Match) (front : List Char) {text back : List Char}
    {rest : Tail} (hcontext : (context == .output) = false) (htext : header.text cs = .ok text)
    (hsplit : cs = front ++ (text ++ back)) (hstart : header.piece.start = byteLength front)
    (hrest : rest.EndOf cs) (hstop : header.stop = rest.offset) :
    Matches context cs (.ok header) (.ok ⟨.trimmed header.piece.start text, rest⟩) := by
  have h : Matches context cs _ _ := .found htext hsplit hstart hrest hstop
  rwa [extraction, hcontext, Bool.and_false, if_neg Bool.false_ne_true] at h

theorem endOf_start (cs : List Char) : (Tail.start cs).EndOf cs :=
  ⟨Tail.fits_start cs, List.suffix_rfl⟩

/-- The text between a tail and a later one is cut out. -/
theorem exists_cut_upTo {rest : List Char} (hu : u.EndOf cs) (hrest : rest <:+ u.chars) :
    ∃ front, cs = front ++ (upTo rest u.chars ++ rest) ∧ u.offset = byteLength front ∧
      cut cs u.offset (u.goTo rest).offset = .ok (upTo rest u.chars) := by
  obtain ⟨front, hfront, hoffset⟩ := hu.exists_front
  have hsplit : cs = front ++ (upTo rest u.chars ++ rest) := by
    rw [Tail.upTo_append hrest]
    exact hfront
  refine ⟨front, hsplit, hoffset, ?_⟩
  have h := cut_append front (upTo rest u.chars) rest
  rw [← hsplit, ← hoffset] at h
  exact h

theorem endOf_of_bind {word : List Char}
    (h : ((Tail.start cs).drop? word).bind Tail.skipBlanks? = some u) : u.EndOf cs := by
  obtain ⟨v, hv, hu⟩ := Option.bind_eq_some_iff.1 h
  exact ((endOf_start cs).drop? hv).skipBlanks? hu

/-- The match of a `switch` header has the stretches of its extraction. -/
theorem matchSwitch_matches (cs : List Char) :
    Matches .switch cs (matchSwitch cs) (extractSwitch (.start cs)) := by
  rw [matchSwitch, extractSwitch]
  cases hword : ((Tail.start cs).drop? Keyword.switch).bind Tail.skipBlanks? with
  | none => exact .refused .switchHeader (endOf_start cs)
  | some u =>
    have hu := endOf_of_bind hword
    have hsuffix := Items.afterItems_suffix .tag u.chars
    have hrest := hu.goTo hsuffix
    obtain ⟨front, hsplit, hoffset, hcut⟩ := exists_cut_upTo hu hsuffix
    dsimp only
    split
    · exact .found_trimmed ⟨⟨u.offset, _⟩, false, _⟩ front rfl hcut hsplit hoffset hrest rfl
    · exact .refused .endOfLine hrest

/-- The match of a clause header has the stretches of its extraction. -/
theorem matchCase_matches (cs : List Char) :
    Matches .case cs (matchCase cs) (extractCase (.start cs)) := by
  rw [matchCase, extractCase]
  cases hword : ((Tail.start cs).drop? Keyword.case).bind Tail.skipBlanks? with
  | some u =>
    have hu := endOf_of_bind hword
    have hsuffix := Items.afterItems_suffix .list u.chars
    have hlist := hu.goTo hsuffix
    obtain ⟨front, hsplit, hoffset, hcut⟩ := exists_cut_upTo hu hsuffix
    dsimp only
    split
    · exact .refused .caseList hu
    · cases hcolon : (u.goTo (Items.afterItems .list u.chars)).drop? [':'] with
      | some rest =>
        exact .found_trimmed ⟨⟨u.offset, _⟩, false, _⟩ front rfl hcut hsplit hoffset
          (hlist.drop? hcolon) rfl
      | none => exact .refused .clauseHeader (endOf_start cs)
  | none =>
    dsimp only
    cases hdefault :
        ((Tail.start cs).drop? Keyword.default).bind fun u => u.skipBlanks.drop? [':'] with
    | none => exact .refused .clauseHeader (endOf_start cs)
    | some rest =>
      obtain ⟨u, hu, hrest⟩ := Option.bind_eq_some_iff.1 hdefault
      have hkeyword : cs = Keyword.default ++ u.chars := (Tail.drop?_eq_some hu).1
      have hend := (((endOf_start cs).drop? hu).skipWhile isBlank).drop? hrest
      -- There is no white space around the word.
      have htrimmed : Fragment.ofChars 0 Keyword.default = .trimmed 0 Keyword.default := by decide
      show Matches .case cs _ (.ok ⟨Fragment.ofChars 0 Keyword.default, rest⟩)
      rw [htrimmed]
      exact .found_trimmed ⟨⟨0, _⟩, true, _⟩ [] rfl rfl hkeyword rfl hend rfl

/-- The match of a `fallthrough` has the stretches of its extraction. -/
theorem matchFallthrough_matches (cs : List Char) :
    Matches .fallthrough cs (matchFallthrough cs) (extractFallthrough (.start cs)) := by
  rw [matchFallthrough, extractFallthrough]
  cases hword : (Tail.start cs).drop? Keyword.fallthrough with
  | none => exact .refused .fallthroughLine (endOf_start cs)
  | some u =>
    have hkeyword : cs = Keyword.fallthrough ++ u.chars := (Tail.drop?_eq_some hword).1
    have hu := (endOf_start cs).drop? hword
    have hcut : cut cs 0 u.offset = .ok Keyword.fallthrough := by
      rw [hkeyword, (Tail.drop?_eq_some hword).2]
      exact cut_append [] Keyword.fallthrough u.chars
    dsimp only
    split
    · have htrimmed : Fragment.ofChars 0 Keyword.fallthrough = .trimmed 0 Keyword.fallthrough := by
        decide
      show Matches .fallthrough cs _ (.ok ⟨Fragment.ofChars 0 Keyword.fallthrough, u.skipBlanks⟩)
      rw [htrimmed]
      exact .found_trimmed ⟨⟨0, _⟩, false, _⟩ [] rfl hcut hkeyword rfl
        (hu.skipWhile isBlank) rfl
    · exact .refused .endOfLine (hu.skipWhile isBlank)

theorem isEmpty_value_trimmed (offset : Nat) (text : List Char) :
    (Fragment.trimmed offset text).value.isEmpty = (trim text).isEmpty := by
  rw [Bool.eq_iff_iff, String.isEmpty_iff, List.isEmpty_iff]
  exact String.ofList_eq_empty_iff

/-- The match of an expression in braces has the stretches of its extraction. -/
theorem matchOutput_matches (cs : List Char) :
    Matches .output cs (matchOutput cs) (extractOutput (.start cs)) := by
  rw [matchOutput, extractOutput]
  cases hword : (Tail.start cs).drop? ['\x7b'] with
  | none => exact .refused .bracedExpression (endOf_start cs)
  | some u =>
    have hu := (endOf_start cs).drop? hword
    have hsuffix := Items.afterItems_suffix .braced u.chars
    have hbody := hu.goTo hsuffix
    obtain ⟨front, hsplit, hoffset, hcut⟩ := exists_cut_upTo hu hsuffix
    dsimp only
    cases hclose : (u.goTo (Items.afterItems .braced u.chars)).drop? ['\x7d'] with
    | none => exact .refused .bracedExpression (endOf_start cs)
    | some rest =>
      have hfound : Matches .output cs (.ok ⟨⟨u.offset, (u.goTo (Items.afterItems .braced
          u.chars)).offset⟩, false, rest.offset⟩) _ :=
        .found hcut hsplit hoffset (hbody.drop? hclose) rfl
      rw [extraction, show (Context.output == Context.output) = true from rfl, Bool.and_true,
        ← isEmpty_value_trimmed u.offset] at hfound
      exact hfound

/-- What the grammar matches is what an extraction finds. -/
theorem matchHeader_matches (context : Context) (cs : List Char) :
    Matches context cs (matchHeader context cs) (extract context (.start cs)) := by
  cases context with
  | switch => exact matchSwitch_matches cs
  | case => exact matchCase_matches cs
  | fallthrough => exact matchFallthrough_matches cs
  | output => exact matchOutput_matches cs

/-! ## Reading an expression -/

theorem isBoundary_of_endOf {source : Source} (hu : u.EndOf source.chars) :
    source.isBoundary u.offset = true := by
  obtain ⟨front, hfront, hoffset⟩ := hu.exists_front
  rw [Source.isBoundary_iff (offset_le_length hu), hfront, hoffset]
  exact isBoundary_append front u.chars

/-- An offset that splits no character of the text that is left splits none of the source. -/
theorem endOf_shift {source : List Char} (ht : t.EndOf source) (hu : u.EndOf t.chars) :
    (u.shift t.offset).EndOf source := by
  refine ⟨?_, hu.suffix.trans ht.suffix⟩
  have hinner : u.offset + byteLength u.chars = byteLength t.chars := hu.fits
  have houter : t.offset + byteLength t.chars = byteLength source := ht.fits
  show u.offset + t.offset + byteLength u.chars = byteLength source
  omega

theorem endOf_append (front rest : List Char) :
    (⟨byteLength front, rest⟩ : Tail).EndOf (front ++ rest) :=
  ⟨(byteLength_append front rest).symm, List.suffix_append front rest⟩

/-- A piece of text is trimmed on both sides between two boundaries. -/
theorem exists_lead_pad (text : List Char) :
    ∃ lead pad, text = lead ++ (trim text ++ pad) ∧
      minus (byteLength text) (byteLength (trimStart text)) = .ok (byteLength lead) ∧
      ∀ offset, Fragment.trimmed offset text = .ofChars (offset + byteLength lead) (trim text) := by
  obtain ⟨pad, -, hrun, -⟩ := exists_trim_append text
  have hlength := congrArg byteLength (takeWhile_append_trimStart text)
  rw [byteLength_append] at hlength
  refine ⟨text.takeWhile isWhiteSpace, pad, hrun, ?_, fun _ => rfl⟩
  rw [minus_of_le (by omega), ← hlength, Nat.add_sub_cancel]

/-- An expression whose header is matched is cut out as it is extracted. -/
theorem takeHeader_on (h : c.tail? = some t) {header : Match} {text front back : List Char}
    {rest : Tail} (htext : header.text t.chars = .ok text)
    (hsplit : t.chars = front ++ (text ++ back)) (hstart : header.piece.start = byteLength front)
    (hrest : rest.EndOf t.chars) (hstop : header.stop = rest.offset) :
    (takeHeader context t.offset t.chars header).on c =
      match shiftExtraction t.offset (extraction context header.piece.start text rest) with
      | .ok x => (.ok (x.expression.map c.source.positionAt), ⟨c.source, x.rest.offset⟩)
      | .error failure => (.error (.failure (failure.map c.source.positionAt)), c) := by
  have ht : t.EndOf c.source.chars := (tail?_eq_some_iff.1 h).2
  obtain ⟨lead, pad, hrun, hleading, htrimmed⟩ := exists_lead_pad text
  have hsource : t.chars = front ++ lead ++ (trim text ++ (pad ++ back)) := by
    rw [hsplit, List.append_assoc, ← List.append_assoc (trim text), ← List.append_assoc lead,
      ← hrun]
  -- the value begins behind the white space `lead` and ends in front of `pad`, at boundaries
  have hvalueStart := endOf_append (front ++ lead) (trim text ++ (pad ++ back))
  have hvalueStop := endOf_append (front ++ lead ++ trim text) (pad ++ back)
  rw [List.append_assoc (front ++ lead), ← hsource] at hvalueStop
  rw [← hsource] at hvalueStart
  have hfirst := isBoundary_of_endOf (endOf_shift ht hvalueStart)
  have hlast := isBoundary_of_endOf (endOf_shift ht hvalueStop)
  have hseek := seek_on (endOf_shift ht hrest)
  simp only [Tail.offset_shift, byteLength_append] at hfirst hlast hseek
  rw [takeHeader, htext, on_bind_of_ok (on_check_ok ..), hleading, on_bind_of_ok (on_check_ok ..),
    hstart, hstop, Nat.add_comm t.offset, Nat.add_right_comm, Nat.add_comm t.offset]
  dsimp only
  by_cases hempty : ((trim text).isEmpty && context == .output) = true
  · rw [if_pos hempty, refuseAt_on (isBoundary_of_endOf ht), extraction, if_pos hempty]
    simp only [shiftExtraction, Failure.map, Nat.zero_add]
  · rw [if_neg hempty, extraction, if_neg hempty, htrimmed,
      Nat.add_right_comm _ t.offset (byteLength (trim text)),
      on_bind_of_ok (spanBetween_on hfirst hlast), on_bind_of_ok hseek, on_pure]
    rfl

/-- An extraction does not depend on the text in front; its offsets move along. -/
theorem extract_eq_shift (context : Context) (t : Tail) :
    extract context t = shiftExtraction t.offset (extract context (.start t.chars)) := by
  have ht : t = (Tail.start t.chars).shift t.offset := by
    rw [Tail.shift, Tail.start, Nat.zero_add]
  cases context with
  | switch => exact (congrArg extractSwitch ht).trans extractSwitch_shift
  | case => exact (congrArg extractCase ht).trans extractCase_shift
  | fallthrough => exact (congrArg extractFallthrough ht).trans extractFallthrough_shift
  | output => exact (congrArg extractOutput ht).trans extractOutput_shift

/-- An extraction leaves an end of the source. -/
theorem endOf_extract {source : List Char} {x : Extraction} (context : Context)
    (ht : t.EndOf source) (hx : extract context t = .ok x) : x.rest.EndOf source := by
  have hmatches := matchHeader_matches context t.chars
  rw [extract_eq_shift] at hx
  generalize matchHeader context t.chars = m, extract context (.start t.chars) = y
    at hmatches hx
  cases hmatches with
  | refused => cases hx
  | found _ _ _ hrest _ =>
    rw [extraction] at hx
    split at hx
    · cases hx
    · cases hx
      exact endOf_shift ht hrest

/-- From a tail on a cursor reads the expression that is extracted from the tail. -/
theorem readExpression_on (h : c.tail? = some t) (context : Context) :
    (readExpression context).on c =
      match extract context t with
      | .ok x => (.ok (x.expression.map c.source.positionAt), ⟨c.source, x.rest.offset⟩)
      | .error failure => (.error (.failure (failure.map c.source.positionAt)), c) := by
  obtain ⟨hindex, ht⟩ := tail?_eq_some_iff.1 h
  have hmatches := matchHeader_matches context t.chars
  rw [extract_eq_shift, readExpression, on_bind_of_ok (on_get c), on_bind_of_ok (remaining_on h),
    hindex]
  generalize matchHeader context t.chars = m, extract context (.start t.chars) = x at hmatches ⊢
  cases hmatches with
  | @refused u expected hu =>
    have hplace := isBoundary_of_endOf (endOf_shift ht hu)
    rw [Tail.offset_shift, Nat.add_comm] at hplace
    dsimp only [shiftExtraction, Failure.map]
    rw [refuseAt_on hplace, Nat.add_comm u.offset]
  | found htext hsplit hstart hrest hstop =>
    exact takeHeader_on h htext hsplit hstart hrest hstop

theorem readExpression_on_inside (h : c.tail? = none) (context : Context) :
    (readExpression context).on c = (.error (.fault .badCut), c) := by
  rw [readExpression, on_bind_of_ok (on_get c), remaining_bind_on_inside h]

end SwitchMarkup.Descent

import SwitchMarkup.Proofs.Descent.Follows
import SwitchMarkup.Proofs.Template.Map

/-!
# Single constructs of the recursive descent

What the readers of the single constructs come to, from a tail of the source on: a marked
expression, text, the header of a clause and the opening of a block. Each finds what the reader of
the same construct finds on tails, with its places resolved, and each goes back where there is no
match.
-/

namespace SwitchMarkup.Descent

open SwitchMarkup.Descent.Action

variable {source : Source} {t u : Tail} {depth : Nat} {log : List Event} {word : List Char}
  {context : Context} {x : Extraction} {failure : Failure Nat}

/-- Behind the front of an end of the source there is another end of it. -/
theorem endOf_add {source front rest : List Char} (ht : t.EndOf source)
    (h : t.chars = front ++ rest) : (⟨t.offset + byteLength front, rest⟩ : Tail).EndOf source := by
  have hinner := endOf_append front rest
  rw [← h] at hinner
  have hshift := endOf_shift ht hinner
  rwa [Tail.shift, Nat.add_comm] at hshift

/-! ## Marked expressions -/

theorem startsWith_onCursor (ht : t.EndOf source.chars) :
    (onCursor (startsWith word)).on ⟨⟨source, t.offset⟩, depth, log⟩ =
      (.ok (t.startsWith word), ⟨⟨source, t.offset⟩, depth, log⟩) :=
  onCursor_on (startsWith_on (tail?_mk ht))

theorem skipWhile_onCursor (ht : t.EndOf source.chars) (p : Char → Bool) :
    (onCursor (skipWhile p)).on ⟨⟨source, t.offset⟩, depth, log⟩ =
      (.ok ((t.skipWhile p).offset - t.offset), ⟨⟨source, (t.skipWhile p).offset⟩, depth, log⟩) :=
  onCursor_on (skipWhile_on (tail?_mk ht) p)

/-- Where the header is well formed its expression is read, and the cursor stands behind the
header. -/
theorem readExpression_onCursor_ok (context : Context) (ht : t.EndOf source.chars)
    (hx : extract context t = .ok x) :
    (onCursor (readExpression context)).on ⟨⟨source, t.offset⟩, depth, log⟩ =
      (.ok (x.expression.map source.positionAt), ⟨⟨source, x.rest.offset⟩, depth, log⟩) := by
  have h := readExpression_on (tail?_mk ht) context
  rw [hx] at h
  exact onCursor_on h

/-- Where the header is not well formed the template is refused, and the cursor stays. -/
theorem readExpression_onCursor_error (context : Context) (ht : t.EndOf source.chars)
    (hx : extract context t = .error failure) :
    (onCursor (readExpression context)).on ⟨⟨source, t.offset⟩, depth, log⟩ =
      (.error (.failure (failure.map source.positionAt)), ⟨⟨source, t.offset⟩, depth, log⟩) := by
  have h := readExpression_on (tail?_mk ht) context
  rw [hx] at h
  exact onCursor_on h

/-- Behind its word an expression is read that can be extracted. -/
theorem readMarked_on_ok (context : Context) (ht : t.EndOf source.chars)
    (hword : t.startsWith word = true) (hx : extract context t = .ok x) :
    (readMarked word context).on ⟨⟨source, t.offset⟩, depth, log⟩ =
      (.ok (some (x.expression.map source.positionAt)),
        ⟨⟨source, x.rest.offset⟩, depth, log⟩) := by
  refine attempt_on_some ?_
  rw [on_bind_of_ok (startsWith_onCursor ht), if_pos hword,
    on_bind_of_ok (readExpression_onCursor_ok context ht hx), on_pure]

/-- Behind its word an expression that cannot be extracted refuses the template. -/
theorem readMarked_on_error (context : Context) (ht : t.EndOf source.chars)
    (hword : t.startsWith word = true) (hx : extract context t = .error failure) :
    (readMarked word context).on ⟨⟨source, t.offset⟩, depth, log⟩ =
      (.error (.failure (failure.map source.positionAt)), ⟨⟨source, t.offset⟩, depth, log⟩) := by
  refine attempt_on_error ?_
  rw [on_bind_of_ok (startsWith_onCursor ht), if_pos hword,
    on_bind_of_error (readExpression_onCursor_error context ht hx)]

/-- Without its word no expression is looked for. -/
theorem readMarked_on_none (context : Context) (ht : t.EndOf source.chars)
    (hword : ¬t.startsWith word = true) :
    (readMarked word context).on ⟨⟨source, t.offset⟩, depth, log⟩ =
      (.ok none, ⟨⟨source, t.offset⟩, depth, log⟩) := by
  refine attempt_on_none_here ht ?_
  rw [on_bind_of_ok (startsWith_onCursor ht), if_neg hword, on_pure]

/-! ## Text -/

/-- Looking for text never faults: its stretch is within what is left to read. -/
theorem findText_eq (rest : List Char) :
    findText rest =
      .ok (trimEnd (rest.takeWhile fun c => !endsText c),
        byteLength (rest.takeWhile fun c => !endsText c)) := by
  have hcut := cut_append [] (rest.takeWhile fun c => !endsText c)
    (rest.dropWhile fun c => !endsText c)
  rw [List.nil_append, List.takeWhile_append_dropWhile, byteLength_nil, Nat.zero_add] at hcut
  simp only [findText, hcut, bind, Except.bind]
  rfl

/-- Where nothing visible stands in front of a brace or a line end there is no text. -/
theorem readText_on_none (ht : t.EndOf source.chars)
    (hvalue : (trimEnd (t.chars.takeWhile fun c => !endsText c)).isEmpty = true) :
    readText.on ⟨⟨source, t.offset⟩, depth, log⟩ =
      (.ok none, ⟨⟨source, t.offset⟩, depth, log⟩) := by
  rw [readText, on_bind_of_ok (here_on _), on_bind_of_ok (onCursor_on (remaining_on (tail?_mk ht))),
    findText_eq, on_bind_of_ok (on_check_ok ..)]
  dsimp only
  rw [if_pos hvalue, on_pure]

/-- Text is read with its exact stretch, and the cursor stops in front of the brace or the line
end. -/
theorem readText_on_some (ht : t.EndOf source.chars)
    (hvalue : ¬(trimEnd (t.chars.takeWhile fun c => !endsText c)).isEmpty = true) :
    readText.on ⟨⟨source, t.offset⟩, depth, log⟩ =
      (.ok (some ((Fragment.ofChars t.offset
          (trimEnd (t.chars.takeWhile fun c => !endsText c))).map source.positionAt)),
        ⟨⟨source, (t.skipWhile fun c => !endsText c).offset⟩, depth, log⟩) := by
  obtain ⟨pad, -, hpad⟩ := exists_trimEnd_append (t.chars.takeWhile fun c => !endsText c)
  have hsplit : t.chars = trimEnd (t.chars.takeWhile fun c => !endsText c) ++
      (pad ++ t.chars.dropWhile fun c => !endsText c) := by
    rw [← List.append_assoc, ← hpad, List.takeWhile_append_dropWhile]
  have hstop := isBoundary_of_endOf (endOf_add ht hsplit)
  have hadvance := advance_on (c := ⟨source, t.offset⟩)
    (ht.skipWhile fun c => !endsText c) rfl
  rw [readText, on_bind_of_ok (here_on _), on_bind_of_ok (onCursor_on (remaining_on (tail?_mk ht))),
    findText_eq, on_bind_of_ok (on_check_ok ..)]
  dsimp only
  rw [if_neg hvalue, on_bind_of_ok (onCursor_on hadvance),
    on_bind_of_ok (onCursor_on (spanBetween_on (isBoundary_of_endOf ht) hstop)), on_pure]
  rfl

/-! ## Headers of clauses and openings of blocks -/

/-- Where a clause begins its kind is told, and the cursor stays. -/
theorem clauseKind_on_of_some {c : Cursor} (h : c.tail? = some t)
    (hclause : t.startsClause = true) :
    clauseKind.on c = (.ok (some (t.startsWith Keyword.default)), c) := by
  rw [clauseKind, on_bind_of_ok (startsWith_on h)]
  cases hdefault : t.startsWith Keyword.default with
  | true => rw [if_pos rfl, on_pure]
  | false =>
    rw [Tail.startsClause, hdefault, Bool.or_false] at hclause
    rw [if_neg Bool.false_ne_true, on_bind_of_ok (startsWith_on h), if_pos hclause, on_pure]

theorem clauseKind_on_of_none {c : Cursor} (h : c.tail? = some t)
    (hclause : ¬t.startsClause = true) : clauseKind.on c = (.ok none, c) := by
  rw [Tail.startsClause, Bool.or_eq_true, not_or] at hclause
  rw [clauseKind, on_bind_of_ok (startsWith_on h), if_neg hclause.2,
    on_bind_of_ok (startsWith_on h), if_neg hclause.1, on_pure]

/-- Behind a header the cursor gets as far as the tail does. -/
theorem skipHeaderEnd_on {c : Cursor} (h : c.tail? = some t) :
    skipHeaderEnd.on c = (.ok ⟨⟩, ⟨c.source, t.skipHeaderEnd.offset⟩) := by
  have hblanks := tail?_mk ((tail?_eq_some_iff.1 h).2.skipWhile isBlank)
  rw [skipHeaderEnd, on_bind_of_ok (skipWhile_on h isBlank), Tail.skipHeaderEnd]
  cases hu : t.skipBlanks.dropLineEnd? with
  | some u => rw [on_bind_of_ok (consumeLineEnd_on_of_some hblanks hu), on_pure, Option.getD_some]
  | none =>
    rw [on_bind_of_ok (consumeLineEnd_on_of_none hblanks hu), on_pure, Option.getD_none]
    rfl

/-- The opening of a block is taken where the tail has it. -/
theorem consumeOpening_on_of_some {c : Cursor} (h : c.tail? = some t)
    (hu : t.dropBlockOpening? = some u) :
    consumeOpening.on c = (.ok true, ⟨c.source, u.offset⟩) := by
  have hblanks := (tail?_eq_some_iff.1 h).2.skipWhile isBlank
  obtain ⟨v, hv, hu⟩ := Option.bind_eq_some_iff.1 hu
  have hopened := tail?_mk ((hblanks.drop? hv).skipWhile isBlank)
  rw [consumeOpening, on_bind_of_ok (skipWhile_on h isBlank),
    on_bind_of_ok (consume_on_of_some (tail?_mk hblanks) hv), if_pos rfl,
    on_bind_of_ok (skipWhile_on (tail?_mk (hblanks.drop? hv)) isBlank),
    consumeLineEnd_on_of_some hopened hu]

/-- Where the tail has no opening none is found; the cursor may stand behind some blanks. -/
theorem consumeOpening_on_of_none {c : Cursor} (h : c.tail? = some t)
    (hu : t.dropBlockOpening? = none) :
    ∃ offset, consumeOpening.on c = (.ok false, ⟨c.source, offset⟩) := by
  have hblanks := (tail?_eq_some_iff.1 h).2.skipWhile isBlank
  rw [consumeOpening, on_bind_of_ok (skipWhile_on h isBlank)]
  cases hv : t.skipBlanks.drop? ['\x7b'] with
  | none =>
    rw [on_bind_of_ok (consume_on_of_none (tail?_mk hblanks) hv), if_neg Bool.false_ne_true,
      on_pure]
    exact ⟨_, rfl⟩
  | some v =>
    rw [Tail.dropBlockOpening?, hv, Option.bind_some] at hu
    have hopened := tail?_mk ((hblanks.drop? hv).skipWhile isBlank)
    rw [on_bind_of_ok (consume_on_of_some (tail?_mk hblanks) hv), if_pos rfl,
      on_bind_of_ok (skipWhile_on (tail?_mk (hblanks.drop? hv)) isBlank),
      consumeLineEnd_on_of_none hopened hu]
    exact ⟨_, rfl⟩

/-- The header of the clause that begins at a tail. -/
def headerOf (t : Tail) (expression : Fragment Nat) : Header Nat :=
  if t.startsWith Keyword.default then .default expression.span else .case expression

theorem skipWhiteSpace_onCursor (ht : t.EndOf source.chars) :
    (onCursor (skipWhile isWhiteSpace)).on ⟨⟨source, t.offset⟩, depth, log⟩ =
      (.ok (t.skipWhiteSpace.offset - t.offset),
        ⟨⟨source, t.skipWhiteSpace.offset⟩, depth, log⟩) :=
  skipWhile_onCursor ht isWhiteSpace

theorem endOf_skipWhiteSpace {source : List Char} (ht : t.EndOf source) :
    t.skipWhiteSpace.EndOf source :=
  ht.skipWhile isWhiteSpace

theorem endOf_skipHeaderEnd {source : List Char} (ht : t.EndOf source) :
    t.skipHeaderEnd.EndOf source := by
  rw [Tail.skipHeaderEnd]
  cases hu : t.skipBlanks.dropLineEnd? with
  | none => exact ht.skipWhile isBlank
  | some u => exact Tail.EndOf.dropLineEnd? (ht.skipWhile isBlank) hu

theorem endOf_dropBlockOpening? {source : List Char} (ht : t.EndOf source)
    (hu : t.dropBlockOpening? = some u) : u.EndOf source := by
  obtain ⟨v, hv, hu⟩ := Option.bind_eq_some_iff.1 hu
  exact (((ht.skipWhile isBlank).drop? hv).skipWhile isBlank).dropLineEnd? hu

/-- The header of a clause is read behind white space, together with the end of its line. -/
theorem readHeader_on_ok (ht : t.EndOf source.chars)
    (hclause : t.skipWhiteSpace.startsClause = true)
    (hx : extractCase t.skipWhiteSpace = .ok x) :
    readHeader.on ⟨⟨source, t.offset⟩, depth, log⟩ =
      (.ok (some ((headerOf t.skipWhiteSpace x.expression).map source.positionAt)),
        ⟨⟨source, x.rest.skipHeaderEnd.offset⟩, depth, log⟩) := by
  have hwhite := endOf_skipWhiteSpace ht
  have hrest := endOf_extract .case hwhite hx
  refine attempt_on_some ?_
  rw [on_bind_of_ok (skipWhiteSpace_onCursor ht),
    on_bind_of_ok (onCursor_on (clauseKind_on_of_some (tail?_mk hwhite) hclause))]
  dsimp only
  rw [on_bind_of_ok (readExpression_onCursor_ok .case hwhite hx),
    on_bind_of_ok (onCursor_on (skipHeaderEnd_on (tail?_mk hrest))), on_pure, headerOf]
  split
  · rfl
  · rfl

/-- Where a clause begins with a header that is not well formed the template is refused at its
start. -/
theorem readHeader_on_error (ht : t.EndOf source.chars)
    (hclause : t.skipWhiteSpace.startsClause = true)
    (hx : extractCase t.skipWhiteSpace = .error failure) :
    readHeader.on ⟨⟨source, t.offset⟩, depth, log⟩ =
      (.error (.failure (failure.map source.positionAt)),
        ⟨⟨source, t.skipWhiteSpace.offset⟩, depth, log⟩) := by
  have hwhite := endOf_skipWhiteSpace ht
  refine attempt_on_error ?_
  rw [on_bind_of_ok (skipWhiteSpace_onCursor ht),
    on_bind_of_ok (onCursor_on (clauseKind_on_of_some (tail?_mk hwhite) hclause))]
  dsimp only
  rw [on_bind_of_error (readExpression_onCursor_error .case hwhite hx)]

/-- Where no clause follows, the white space that has been passed over is gone back from. -/
theorem readHeader_on_none (ht : t.EndOf source.chars)
    (hclause : ¬t.skipWhiteSpace.startsClause = true) :
    readHeader.on ⟨⟨source, t.offset⟩, depth, log⟩ =
      (.ok none, ⟨⟨source, t.offset⟩, depth,
        log ++ rewind t t.skipWhiteSpace⟩) := by
  have hwhite := endOf_skipWhiteSpace ht
  refine attempt_on_none ht ?_
  rw [on_bind_of_ok (skipWhiteSpace_onCursor ht),
    on_bind_of_ok (onCursor_on (clauseKind_on_of_none (tail?_mk hwhite) hclause))]
  dsimp only
  rw [on_pure]

/-! ## The ends of bodies -/

/-- White space is passed over, and a line feed in it is noticed. -/
theorem skipLines_on (ht : t.EndOf source.chars) :
    skipLines.on ⟨source, t.offset⟩ =
      (.ok ((t.chars.takeWhile isWhiteSpace).contains '\n'),
        ⟨source, t.skipWhiteSpace.offset⟩) := by
  obtain ⟨front, hfront, hoffset⟩ := ht.exists_front
  have hsplit : source.chars =
      front ++ (t.chars.takeWhile isWhiteSpace ++ t.chars.dropWhile isWhiteSpace) := by
    rw [List.takeWhile_append_dropWhile]
    exact hfront
  have hcut : cut source.chars t.offset t.skipWhiteSpace.offset =
      .ok (t.chars.takeWhile isWhiteSpace) := by
    have h := cut_append front (t.chars.takeWhile isWhiteSpace) (t.chars.dropWhile isWhiteSpace)
    rw [← hsplit, ← hoffset] at h
    exact h
  rw [skipLines, on_bind_of_ok (on_get _), on_bind_of_ok (skipWhile_on (tail?_mk ht) isWhiteSpace),
    on_bind_of_ok (on_get _)]
  show (check (cut source.chars t.offset t.skipWhiteSpace.offset) >>= _ :
    Action Cursor Bool).on _ = _
  rw [hcut, on_bind_of_ok (on_check_ok ..), on_pure]
  rfl

theorem atClause_on {c : Cursor} (h : c.tail? = some t) :
    atClause.on c = (.ok t.startsClause, c) := by
  rw [atClause, on_bind_of_ok (startsWith_on h), Tail.startsClause]
  cases t.startsWith (Keyword.spaced Keyword.case) with
  | true => rw [if_pos rfl, on_pure, Bool.true_or]
  | false => rw [if_neg Bool.false_ne_true, startsWith_on h, Bool.false_or]

/-- A body ends at a closing brace, or at a clause that begins a line; only a clause's body does. -/
theorem atBodyEnd_on {c : Cursor} (h : c.tail? = some t) (inClause lineStart : Bool) :
    (atBodyEnd inClause lineStart).on c =
      (.ok (inClause && (t.startsWith ['\x7d'] || lineStart && t.startsClause)), c) := by
  cases inClause with
  | false => rfl
  | true =>
    rw [atBodyEnd, if_pos rfl, on_bind_of_ok (startsWith_on h), Bool.true_and]
    cases t.startsWith ['\x7d'] with
    | true => rw [if_pos rfl, on_pure, Bool.true_or]
    | false =>
      rw [if_neg Bool.false_ne_true, Bool.false_or]
      cases lineStart with
      | true => rw [if_pos rfl, atClause_on h, Bool.true_and]
      | false => rw [if_neg Bool.false_ne_true, on_pure, Bool.false_and]

/-- A cursor is at the end where its tail is empty. -/
theorem isAtEnd_eq (ht : t.EndOf source.chars) :
    (Cursor.mk source t.offset).isAtEnd = t.isEmpty := by
  have hsum : t.offset + byteLength t.chars = byteLength source.chars := ht.fits
  show decide (source.length ≤ t.offset) = t.chars.isEmpty
  rw [source.length_eq, ← hsum]
  cases t.chars with
  | nil => exact decide_eq_true (Nat.le_refl _)
  | cons c cs =>
    have hpos : 0 < c.utf8Size := c.utf8Size_pos
    rw [byteLength_cons]
    exact decide_eq_false (by omega)

end SwitchMarkup.Descent

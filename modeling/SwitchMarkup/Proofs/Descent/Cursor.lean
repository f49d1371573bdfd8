import SwitchMarkup.Cursor.Basic
import SwitchMarkup.Proofs.Descent.Basic

/-!
# Reading from a cursor

What a cursor can be asked is written here with every step that may fault: a slice of the source
for whatever reads from it, and for a position a search in the line table, the entry that it finds
and a slice of one line. At a boundary none of this faults and the cursor reads what its tail has;
inside of a character nothing is read and the cursor stays. Main statements: `locate_eq` and, for
each operation, what it does from a tail on.
-/

namespace SwitchMarkup.Descent

open SwitchMarkup.Descent.Action

variable {c : Cursor} {t u : Tail} {source : Source} {word : List Char} {offset : Nat}

/-! ## Positions -/

/-- The result of a search for an offset in a line table: the index of the line that begins there,
or of the first line that begins behind it. -/
def search (table : LineTable) (offset : Nat) : Except Nat Nat :=
  match table.lineOf offset with
  | 0 => .error 0
  | line + 1 =>
    if table.starts[line]?.any fun start => start.offset == offset then .ok line
    else .error (line + 1)

/-- The index of the line that an offset stands on. -/
def lineIndex (table : LineTable) (offset : Nat) : Except Fault Nat :=
  match search table offset with
  | .ok line => .ok line
  | .error next => minus next 1

/-- The position of an offset, or of the end if that comes first. -/
def locate (source : Source) (offset : Nat) : Except Fault Position := do
  let index := min offset source.length
  let line ← lineIndex source.lines index
  match source.lines.starts[line]? with
  | none => throw .noEntry
  | some start =>
    let passed ← cut source.chars start.offset index
    return ⟨index, line + 1, passed.length + 1⟩

/-! ## Operations -/

/-- Goes to an offset, or to the end if that comes first. -/
def seek (offset : Nat) : Action Cursor Unit := modify fun c => c.seek offset

/-- Goes some bytes further on, by a sum that must fit in a machine word. -/
def advance (count : Nat) : Action Cursor Unit := do
  let c ← get
  let offset ← check (plus c.wordSize c.index count)
  seek offset

/-- The text that is left. -/
def remaining : Action Cursor (List Char) := do
  let c ← get
  check (cut c.source.chars c.index c.source.length)

/-- Whether the text that is left begins with a word. -/
def startsWith (word : List Char) : Action Cursor Bool := do
  let rest ← remaining
  return word.isPrefixOf rest

/-- Takes a word, if the text that is left begins with it. -/
def consume (word : List Char) : Action Cursor Bool := do
  if ← startsWith word then
    advance (byteLength word)
    return true
  else return false

/-- Passes over the leading characters of a class, and gives their number of bytes. -/
def skipWhile (p : Char → Bool) : Action Cursor Nat := do
  let rest ← remaining
  let count := byteLength (rest.takeWhile p)
  advance count
  return count

/-- Takes a line end, if the text that is left begins with one. -/
def consumeLineEnd : Action Cursor Bool := do
  if ← consume ['\n'] then return true else consume ['\r', '\n']

/-- The position of an offset. -/
def positionAt (offset : Nat) : Action Cursor Position := do
  let c ← get
  check (locate c.source offset)

/-- The stretch between two offsets. -/
def spanBetween (start stop : Nat) : Action Cursor (Span Position) := do
  let start ← positionAt start
  let stop ← positionAt stop
  return ⟨start, stop⟩

/-- Refuses the template at an offset. -/
def refuseAt {α : Type} (offset : Nat) (cause : Cause) : Action Cursor α := do
  let place ← positionAt offset
  fails ⟨place, cause⟩

/-! ## Where positions are found -/

/-- An entry of the line table stands between the text in front of it and the text behind it. -/
theorem exists_append_of_mem_startsIn {cs : List Char} (front : List Char)
    (h : t ∈ LineTable.startsIn (byteLength front) cs) :
    ∃ more, front ++ cs = more ++ t.chars ∧ t.offset = byteLength more := by
  induction cs generalizing front with
  | nil => cases h
  | cons c cs ih =>
    have hnext : byteLength front + c.utf8Size = byteLength (front ++ [c]) := by simp
    have hsplit : front ++ c :: cs = front ++ [c] ++ cs := by simp
    rw [LineTable.startsIn, hnext] at h
    rw [hsplit]
    split at h
    · rcases List.mem_cons.1 h with rfl | h
      · exact ⟨front ++ [c], rfl, rfl⟩
      · exact ih _ h
    · exact ih _ h

theorem exists_append_of_mem_ofChars {cs : List Char} (h : t ∈ (LineTable.ofChars cs).starts) :
    ∃ front, cs = front ++ t.chars ∧ t.offset = byteLength front := by
  rcases List.mem_cons.1 (List.mem_toArray.1 h) with rfl | h
  · exact ⟨[], rfl, rfl⟩
  · exact exists_append_of_mem_startsIn [] h

/-- The line of an offset comes of a search, whether a line begins at the offset or not. -/
theorem lineIndex_eq {table : LineTable} {line : Nat} (h : table.lineOf offset = line + 1) :
    lineIndex table offset = .ok line := by
  have hminus : minus (line + 1) 1 = .ok line := minus_of_le (Nat.le_add_left 1 line)
  rw [lineIndex, search, h]
  by_cases hfound : (table.starts[line]?.any fun start => start.offset == offset) = true
  · simp only [if_pos hfound]
  · simp only [if_neg hfound, hminus]

/-- The last line that begins at or before an offset, with the text in front of it. -/
theorem exists_lineStart (cs : List Char) (index : Nat) :
    ∃ front start, (LineTable.ofChars cs).starts[(takeBytes index cs).count '\n']? = some start ∧
      cs = front ++ start.chars ∧ start.offset = byteLength front ∧ start.offset ≤ index ∧
      takeBytes (index - start.offset) start.chars = lastLine (takeBytes index cs) := by
  obtain ⟨start, hentry, hline⟩ := LineTable.exists_lastStart 0 index cs
  rw [Nat.zero_add] at hline
  have hmem := List.mem_of_getElem? hentry
  obtain ⟨front, hfront, hoffset⟩ := exists_append_of_mem_ofChars (List.mem_toArray.2 hmem)
  refine ⟨front, start, ?_, hfront, hoffset, ?_, hline⟩
  · rw [LineTable.ofChars, List.getElem?_toArray]
    exact hentry
  · cases hcount : (takeBytes index cs).count '\n' with
    | zero =>
      rw [hcount] at hentry
      cases hentry
      exact Nat.zero_le index
    | succ line =>
      rw [hcount, List.getElem?_cons_succ] at hentry
      obtain ⟨hlt, rfl⟩ := List.getElem?_eq_some_iff.1 hentry
      have h := (LineTable.offset_startsIn_le_iff (n := index) hlt).2 (by omega)
      rwa [Nat.zero_add] at h

/-- A position is found for every offset that splits no character. -/
theorem locate_eq (source : Source) (offset : Nat) :
    locate source offset =
      if source.isBoundary offset then .ok (source.positionAt offset) else .error .badCut := by
  have htake := takeBytes_min offset source.chars
  rw [← source.length_eq] at htake
  obtain ⟨front, start, hentry, hfront, hoffset, hle, hline⟩ :=
    exists_lineStart source.chars (min offset source.length)
  have hlineOf := LineTable.lineOf_ofChars (min offset source.length) source.chars
  rw [← source.lines_eq] at hentry hlineOf
  have hstart : isBoundary start.offset source.chars = true := by
    rw [hfront, hoffset]
    exact isBoundary_append front start.chars
  have hdrop : dropBytes start.offset source.chars = start.chars := by
    rw [hfront, hoffset]
    exact dropBytes_append front start.chars
  simp only [locate, lineIndex_eq hlineOf, hentry, bind, Except.bind]
  by_cases hindex : isBoundary (min offset source.length) source.chars = true
  · have hcut : cut source.chars start.offset (min offset source.length) =
        .ok (lastLine (takeBytes offset source.chars)) := by
      rw [cut, if_pos ⟨hle, hstart, hindex⟩, hdrop, hline, htake]
    rw [Source.isBoundary, if_pos hindex, hcut, Source.positionAt_eq, htake]
    rfl
  · have hcut : cut source.chars start.offset (min offset source.length) = .error .badCut := by
      rw [cut, if_neg fun h => hindex h.2.2]
    rw [hcut, Source.isBoundary, if_neg hindex]

theorem positionAt_on (h : c.source.isBoundary offset = true) :
    (positionAt offset).on c = (.ok (c.source.positionAt offset), c) := by
  rw [positionAt, on_bind_of_ok (on_get c), locate_eq, if_pos h, on_check_ok]

theorem positionAt_on_of_not (h : ¬c.source.isBoundary offset = true) :
    (positionAt offset).on c = (.error (.fault .badCut), c) := by
  rw [positionAt, on_bind_of_ok (on_get c), locate_eq, if_neg h, on_check_error]

theorem spanBetween_on {start stop : Nat} (hstart : c.source.isBoundary start = true)
    (hstop : c.source.isBoundary stop = true) :
    (spanBetween start stop).on c =
      (.ok ⟨c.source.positionAt start, c.source.positionAt stop⟩, c) := by
  rw [spanBetween, on_bind_of_ok (positionAt_on hstart), on_bind_of_ok (positionAt_on hstop),
    on_pure]

theorem refuseAt_on {α : Type} (h : c.source.isBoundary offset = true) (cause : Cause) :
    (refuseAt offset cause : Action Cursor α).on c =
      (.error (.failure ⟨c.source.positionAt offset, cause⟩), c) := by
  rw [refuseAt, on_bind_of_ok (positionAt_on h), on_fails]

/-! ## Reading from a tail -/

/-- Every offset of the source fits in a machine word. -/
theorem lt_wordSize {n : Nat} (h : n ≤ c.source.length) : n < c.wordSize :=
  Nat.lt_of_lt_of_le (Nat.lt_succ_of_le h) (Nat.le_max_right ..)

/-- A tail of the source does not begin past its end. -/
theorem offset_le_length (hu : u.EndOf source.chars) : u.offset ≤ source.length := by
  have hsum : u.offset + byteLength u.chars = byteLength source.chars := hu.fits
  rw [source.length_eq]
  omega

/-- A cursor reads from the end of the source that begins at its offset. -/
theorem tail?_eq_some_iff : c.tail? = some t ↔ c.index = t.offset ∧ t.EndOf c.source.chars := by
  obtain ⟨source, index⟩ := c
  constructor
  · intro h
    rw [Cursor.tail?] at h
    split at h
    · next hindex =>
      obtain rfl := Option.some.inj h
      refine ⟨rfl, Tail.fits_dropBytes hindex, takeBytes index source.chars, ?_⟩
      exact takeBytes_append_dropBytes index source.chars
    · cases h
  · rintro ⟨rfl, ht⟩
    obtain ⟨front, hfront, hoffset⟩ := ht.exists_front
    have hindex : isBoundary t.offset source.chars = true := by
      rw [hfront, hoffset]
      exact isBoundary_append front t.chars
    have hdrop : dropBytes t.offset source.chars = t.chars := by
      rw [hfront, hoffset]
      exact dropBytes_append front t.chars
    rw [Cursor.tail?, if_pos hindex, hdrop]

theorem tail?_mk (ht : t.EndOf source.chars) : (Cursor.mk source t.offset).tail? = some t :=
  tail?_eq_some_iff.2 ⟨rfl, ht⟩

theorem remaining_on (h : c.tail? = some t) : remaining.on c = (.ok t.chars, c) := by
  rw [Cursor.tail?] at h
  split at h
  · next hindex =>
    obtain rfl := Option.some.inj h
    rw [remaining, on_bind_of_ok (on_get c), c.source.length_eq, cut_to_end, if_pos hindex,
      on_check_ok]
  · cases h

/-- Inside of a character the slice up to the end faults. -/
theorem remaining_on_inside (h : c.tail? = none) :
    remaining.on c = (.error (.fault .badCut), c) := by
  rw [Cursor.tail?] at h
  split at h
  · cases h
  · next hindex =>
    rw [remaining, on_bind_of_ok (on_get c), c.source.length_eq, cut_to_end, if_neg hindex,
      on_check_error]

/-- A sum that fits takes the cursor where it says, or to the end if that comes first. -/
theorem advance_on_of_lt {count : Nat} (h : c.index + count < c.wordSize) :
    (advance count).on c = (.ok ⟨⟩, c.seek (c.index + count)) := by
  rw [advance, on_bind_of_ok (on_get c), plus, if_pos h, on_bind_of_ok (on_check_ok ..), seek,
    on_modify]

/-- A cursor that goes on by what stands before a later tail gets to that tail. -/
theorem advance_on (hu : u.EndOf c.source.chars) {count : Nat}
    (hoffset : u.offset = c.index + count) :
    (advance count).on c = (.ok ⟨⟩, ⟨c.source, u.offset⟩) := by
  have hle : c.index + count ≤ c.source.length := hoffset ▸ offset_le_length hu
  rw [advance_on_of_lt (lt_wordSize hle), Cursor.seek, Nat.min_eq_left hle, hoffset]

theorem seek_on (hu : u.EndOf c.source.chars) :
    (seek u.offset).on c = (.ok ⟨⟩, ⟨c.source, u.offset⟩) := by
  rw [seek, on_modify, Cursor.seek, Nat.min_eq_left (offset_le_length hu)]

theorem startsWith_on (h : c.tail? = some t) :
    (startsWith word).on c = (.ok (t.startsWith word), c) := by
  rw [startsWith, on_bind_of_ok (remaining_on h), on_pure]
  rfl

/-- A word is taken where the tail has it. -/
theorem consume_on_of_some (h : c.tail? = some t) (hu : t.drop? word = some u) :
    (consume word).on c = (.ok true, ⟨c.source, u.offset⟩) := by
  obtain ⟨hindex, ht⟩ := tail?_eq_some_iff.1 h
  obtain ⟨hchars, hoffset⟩ := Tail.drop?_eq_some hu
  have hstarts : t.startsWith word = true :=
    Tail.startsWith_iff.2 (hchars ▸ List.prefix_append word u.chars)
  rw [← hindex] at hoffset
  rw [consume, on_bind_of_ok (startsWith_on h), if_pos hstarts,
    on_bind_of_ok (advance_on (ht.drop? hu) hoffset), on_pure]

/-- Where the tail does not have the word the cursor stays. -/
theorem consume_on_of_none (h : c.tail? = some t) (hu : t.drop? word = none) :
    (consume word).on c = (.ok false, c) := by
  have hstarts : ¬t.startsWith word = true :=
    fun hstarts => Tail.drop?_eq_none_iff.1 hu (Tail.startsWith_iff.1 hstarts)
  rw [consume, on_bind_of_ok (startsWith_on h), if_neg hstarts, on_pure]

/-- A class of characters is passed over as in the tail, and the count is the one of their bytes. -/
theorem skipWhile_on (h : c.tail? = some t) (p : Char → Bool) :
    (skipWhile p).on c =
      (.ok ((t.skipWhile p).offset - t.offset), ⟨c.source, (t.skipWhile p).offset⟩) := by
  obtain ⟨hindex, ht⟩ := tail?_eq_some_iff.1 h
  have hoffset : (t.skipWhile p).offset = c.index + byteLength (t.chars.takeWhile p) := by
    rw [hindex]
    rfl
  have hcount : (t.skipWhile p).offset - t.offset = byteLength (t.chars.takeWhile p) :=
    Nat.add_sub_cancel_left ..
  rw [skipWhile, on_bind_of_ok (remaining_on h),
    on_bind_of_ok (advance_on (ht.skipWhile p) hoffset), on_pure, hcount]

theorem consumeLineEnd_on_of_some (h : c.tail? = some t) (hu : t.dropLineEnd? = some u) :
    consumeLineEnd.on c = (.ok true, ⟨c.source, u.offset⟩) := by
  rw [Tail.dropLineEnd?, Option.or_eq_some_iff] at hu
  rcases hu with hfeed | ⟨hfeed, hreturn⟩
  · rw [consumeLineEnd, on_bind_of_ok (consume_on_of_some h hfeed), if_pos rfl, on_pure]
  · rw [consumeLineEnd, on_bind_of_ok (consume_on_of_none h hfeed), if_neg Bool.false_ne_true,
      consume_on_of_some h hreturn]

theorem consumeLineEnd_on_of_none (h : c.tail? = some t) (hu : t.dropLineEnd? = none) :
    consumeLineEnd.on c = (.ok false, c) := by
  rw [Tail.dropLineEnd?, Option.or_eq_none_iff] at hu
  rw [consumeLineEnd, on_bind_of_ok (consume_on_of_none h hu.1), if_neg Bool.false_ne_true,
    consume_on_of_none h hu.2]

/-! ## Inside of a character -/

/-- What begins by reading the text that is left reads nothing there. -/
theorem remaining_bind_on_inside {α : Type} {f : List Char → Action Cursor α}
    (h : c.tail? = none) : (remaining >>= f).on c = (.error (.fault .badCut), c) :=
  on_bind_of_error (remaining_on_inside h)

end SwitchMarkup.Descent

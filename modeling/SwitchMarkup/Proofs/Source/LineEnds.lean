import SwitchMarkup.Parser.Step
import SwitchMarkup.Proofs.Source.Places
import SwitchMarkup.Proofs.Template.Respell
import SwitchMarkup.Proofs.Text.LineEnds

/-!
# Reading the two spellings of a source

A place of a source `src` is a place of `crlf src` as well, further on by one byte for each line
feed in front of it. So to a tail of `src` belongs one of the other spelling, and a reader that takes
blanks, white space, words or line ends takes the same from both. The position of a place differs in
its index alone. Main statements: `Fragment.trimmed_respelt` and
`Source.coordinates_positionAt_moved`.
-/

namespace SwitchMarkup

variable {src cs ds rest word : List Char} {p : Char → Bool} {offset : Nat} {t u : Tail}

/-! ## Places -/

/-- The offset, in the other spelling of `src`, of the place at an offset of `src`. -/
def moved (src : List Char) (n : Nat) : Nat := byteLength (crlf (takeBytes n src))

/-- The tail is what is left to read of `src` at one of its places. -/
structure Tail.Reads (src : List Char) (t : Tail) : Prop where
  fits : t.Fits (byteLength src)
  suffix : t.chars <:+ src

/-- What is left to read of the other spelling of `src` at the same place. -/
def Tail.respelt (src : List Char) (t : Tail) : Tail := ⟨moved src t.offset, crlf t.chars⟩

/-- The same piece in the other spelling of `src`. -/
def Fragment.respelt (src : List Char) (x : Fragment Nat) : Fragment Nat :=
  (x.respell toCrlf).map (moved src)

/-- An offset moves to the length of what stands in front of it in the other spelling. -/
theorem moved_byteLength (cs ds : List Char) :
    moved (cs ++ ds) (byteLength cs) = byteLength (crlf cs) := by
  rw [moved, takeBytes_append]

theorem Tail.reads_start (src : List Char) : (Tail.start src).Reads src :=
  ⟨Tail.fits_start src, List.suffix_rfl⟩

/-- The start of a source is the start in the other spelling. -/
theorem Tail.respelt_start (src : List Char) :
    (Tail.start src).respelt src = Tail.start (crlf src) := by
  rw [Tail.respelt, Tail.start, moved, takeBytes_zero]
  rfl

theorem Tail.Reads.plain (h : t.Reads src) (hsrc : Plain src) : Plain t.chars :=
  hsrc.of_suffix h.suffix

/-- Behind `cs` the place has moved by what `cs` takes in the other spelling. -/
theorem Tail.Reads.moved_add (h : t.Reads src) (hcs : cs <+: t.chars) :
    moved src (t.offset + byteLength cs) = moved src t.offset + byteLength (crlf cs) := by
  obtain ⟨front, hsrc⟩ := h.suffix
  obtain ⟨more, hmore⟩ := hcs
  have hoffset : t.offset = byteLength front := by
    have hfits : t.offset + byteLength t.chars = byteLength src := h.fits
    rw [← hsrc, byteLength_append] at hfits
    omega
  have hfront : moved src (byteLength front) = byteLength (crlf front) := by
    rw [← hsrc, moved_byteLength]
  have hboth : moved src (byteLength (front ++ cs)) = byteLength (crlf (front ++ cs)) := by
    rw [← hsrc, ← hmore, ← List.append_assoc, moved_byteLength]
  rw [byteLength_append, crlf_append, byteLength_append] at hboth
  rw [hoffset, hboth, hfront]

/-! ## Readers -/

theorem Tail.Reads.skipWhile (h : t.Reads src) (p : Char → Bool) : (t.skipWhile p).Reads src :=
  ⟨h.fits.skipWhile p, (Tail.skipWhile_suffix p t).trans h.suffix⟩

theorem Tail.Reads.skipBlanks (h : t.Reads src) : t.skipBlanks.Reads src := h.skipWhile isBlank

theorem Tail.Reads.drop? (h : t.Reads src) (hu : t.drop? word = some u) : u.Reads src :=
  ⟨h.fits.drop? hu, (Tail.drop?_suffix hu).trans h.suffix⟩

theorem Tail.Reads.goTo (h : t.Reads src) (hrest : rest <:+ t.chars) : (t.goTo rest).Reads src :=
  ⟨h.fits.goTo hrest, hrest.trans h.suffix⟩

/-- A class of characters with both line ends or neither is passed over in the other spelling as
well. -/
theorem Tail.Reads.skipWhile_respelt (h : t.Reads src) (hp : p '\r' = p '\n') :
    (t.respelt src).skipWhile p = (t.skipWhile p).respelt src := by
  have hmoved := h.moved_add (List.takeWhile_prefix p)
  rw [Tail.skipWhile, Tail.skipWhile, Tail.respelt, Tail.respelt, takeWhile_crlf hp,
    dropWhile_crlf hp, hmoved]

theorem Tail.Reads.skipBlanks_respelt (h : t.Reads src) :
    (t.respelt src).skipBlanks = t.skipBlanks.respelt src :=
  h.skipWhile_respelt isBlank_return

theorem Tail.Reads.skipWhiteSpace_respelt (h : t.Reads src) :
    (t.respelt src).skipWhiteSpace = t.skipWhiteSpace.respelt src :=
  h.skipWhile_respelt isWhiteSpace_return

/-- Whether a word comes next does not depend on the spelling of line ends. -/
theorem Tail.startsWith_respelt (hfeed : '\n' ∉ word) (hreturn : '\r' ∉ word) :
    (t.respelt src).startsWith word = t.startsWith word :=
  Bool.eq_iff_iff.2 (Tail.startsWith_iff.trans
    ((prefix_crlf_iff hfeed hreturn).trans Tail.startsWith_iff.symm))

theorem Tail.startsClause_respelt : (t.respelt src).startsClause = t.startsClause := by
  rw [Tail.startsClause, Tail.startsClause, Tail.startsWith_respelt (by decide) (by decide),
    Tail.startsWith_respelt (by decide) (by decide)]

theorem Tail.isEmpty_respelt : (t.respelt src).isEmpty = t.isEmpty := isEmpty_crlf t.chars

/-- A word is taken in the other spelling as well. -/
theorem Tail.Reads.drop?_respelt (h : t.Reads src) (hfeed : '\n' ∉ word) (hreturn : '\r' ∉ word) :
    (t.respelt src).drop? word = (t.drop? word).map (Tail.respelt src) := by
  rw [Tail.drop?, Tail.drop?, Tail.startsWith_respelt hfeed hreturn]
  split
  next hword =>
    have hbegins := Tail.startsWith_iff.1 hword
    have hmoved := h.moved_add hbegins
    rw [crlf_eq_self hfeed] at hmoved
    rw [Option.map_some, Tail.respelt, Tail.respelt, hmoved, drop_crlf hfeed hbegins]
  next => rfl

/-- Reading goes on in the other spelling after a part that has been read there. -/
theorem bind_respelt {x : Option Tail} {f : Tail → Option Tail}
    (hf : ∀ u, x = some u → f (u.respelt src) = (f u).map (Tail.respelt src)) :
    (x.map (Tail.respelt src)).bind f = (x.bind f).map (Tail.respelt src) := by
  cases x with
  | none => rfl
  | some u => exact hf u rfl

theorem Tail.Reads.skipBlanks?_respelt (h : t.Reads src) :
    (t.respelt src).skipBlanks? = t.skipBlanks?.map (Tail.respelt src) := by
  have hhead : (crlf t.chars).head?.any isBlank = t.chars.head?.any isBlank := by
    cases t.chars with
    | nil => rfl
    | cons c cs =>
      by_cases hc : c = '\n'
      · subst hc
        rfl
      · rw [crlf_cons hc]
        rfl
  rw [Tail.skipBlanks?, Tail.skipBlanks?, h.skipBlanks_respelt]
  show (if (crlf t.chars).head?.any isBlank then _ else _) = _
  rw [hhead]
  split
  · rfl
  · rfl

/-- An end of a tail is gone to in the other spelling as well. -/
theorem Tail.Reads.goTo_respelt (h : t.Reads src) (hrest : rest <:+ t.chars) :
    (t.respelt src).goTo (crlf rest) = (t.goTo rest).respelt src := by
  obtain ⟨run, hrun⟩ := hrest
  have hmoved : moved src (t.offset + byteLength run) = _ := h.moved_add ⟨rest, hrun⟩
  rw [Tail.goTo, Tail.goTo, Tail.respelt, Tail.respelt, ← hrun, crlf_append, upTo_eq, upTo_eq,
    hmoved]

/-- A line ends in both spellings. -/
theorem atLineBreak_respelt (t : Tail) : (t.respelt src).atLineBreak = t.atLineBreak := by
  rw [Tail.atLineBreak, Tail.atLineBreak, Tail.respelt]
  cases t.chars with
  | nil => rfl
  | cons c cs =>
    by_cases hc : c = '\n'
    · subst hc
      rfl
    · rw [crlf_cons hc]
      rfl

theorem Tail.dropLineEnd?_eq_none {c : Char} (hchars : t.chars = c :: cs) (hfeed : c ≠ '\n')
    (hreturn : c ≠ '\r') : t.dropLineEnd? = none := by
  have hone : t.drop? ['\n'] = none := by
    rw [Tail.drop?_eq_none_iff, hchars, List.cons_prefix_cons]
    exact fun h => hfeed h.1.symm
  have htwo : t.drop? ['\r', '\n'] = none := by
    rw [Tail.drop?_eq_none_iff, hchars, List.cons_prefix_cons]
    exact fun h => hreturn h.1.symm
  rw [Tail.dropLineEnd?, hone, htwo, Option.or_none]

/-- A line end is one line end in either spelling. -/
theorem Tail.Reads.dropLineEnd?_respelt (h : t.Reads src) (hsrc : Plain src) :
    (t.respelt src).dropLineEnd? = t.dropLineEnd?.map (Tail.respelt src) := by
  obtain ⟨offset, chars⟩ := t
  cases chars with
  | nil => rfl
  | cons c cs =>
    by_cases hfeed : c = '\n'
    · subst hfeed
      have hmoved : moved src (offset + byteLength ['\n']) =
          moved src offset + byteLength ['\r', '\n'] := h.moved_add ⟨cs, rfl⟩
      show some (Tail.mk (moved src offset + byteLength ['\r', '\n']) (crlf cs)) =
        some (Tail.mk (moved src (offset + byteLength ['\n'])) (crlf cs))
      rw [hmoved]
    · have hreturn : c ≠ '\r' := (h.plain hsrc).ne_return
      rw [Tail.dropLineEnd?_eq_none (crlf_cons hfeed cs) hfeed hreturn,
        Tail.dropLineEnd?_eq_none rfl hfeed hreturn, Option.map_none]

theorem Tail.Reads.dropLineEnd? (h : t.Reads src) (hu : t.dropLineEnd? = some u) :
    u.Reads src := by
  rw [Tail.dropLineEnd?, Option.or_eq_some_iff] at hu
  rcases hu with hu | ⟨-, hu⟩
  · exact h.drop? hu
  · exact h.drop? hu

theorem Tail.Reads.skipHeaderEnd_respelt (h : t.Reads src) (hsrc : Plain src) :
    (t.respelt src).skipHeaderEnd = t.skipHeaderEnd.respelt src := by
  rw [Tail.skipHeaderEnd, Tail.skipHeaderEnd, h.skipBlanks_respelt,
    h.skipBlanks.dropLineEnd?_respelt hsrc]
  cases t.skipBlanks.dropLineEnd? with
  | none => rfl
  | some u => rfl

theorem Tail.Reads.skipHeaderEnd (h : t.Reads src) : t.skipHeaderEnd.Reads src := by
  rw [Tail.skipHeaderEnd]
  cases hu : t.skipBlanks.dropLineEnd? with
  | none => exact h.skipBlanks
  | some u => exact h.skipBlanks.dropLineEnd? hu

theorem Tail.Reads.dropBlockOpening?_respelt (h : t.Reads src) (hsrc : Plain src) :
    (t.respelt src).dropBlockOpening? = t.dropBlockOpening?.map (Tail.respelt src) := by
  rw [Tail.dropBlockOpening?, Tail.dropBlockOpening?, h.skipBlanks_respelt,
    h.skipBlanks.drop?_respelt (by decide) (by decide)]
  refine bind_respelt fun u hu => ?_
  have hbrace := h.skipBlanks.drop? hu
  rw [hbrace.skipBlanks_respelt, hbrace.skipBlanks.dropLineEnd?_respelt hsrc]

theorem Tail.Reads.dropBlockOpening? (h : t.Reads src) (hu : t.dropBlockOpening? = some u) :
    u.Reads src := by
  obtain ⟨v, hv, hu⟩ := Option.bind_eq_some_iff.1 hu
  exact (h.skipBlanks.drop? hv).skipBlanks.dropLineEnd? hu

/-! ## Pieces of source -/

/-- A fragment of the source in the other spelling is the fragment, respelt. -/
theorem Fragment.ofChars_respelt (h : (⟨offset, cs ++ rest⟩ : Tail).Reads src) :
    Fragment.ofChars (moved src offset) (crlf cs) =
      (Fragment.ofChars offset cs).respelt src := by
  have hmoved : moved src (offset + byteLength cs) = _ := h.moved_add (List.prefix_append cs rest)
  simp only [Fragment.ofChars, Fragment.respelt, Fragment.respell, Fragment.map, Span.map, toCrlf,
    String.toList_ofList, hmoved]

/-- A trimmed fragment of the source in the other spelling is the fragment, respelt. -/
theorem Fragment.trimmed_respelt (h : (⟨offset, cs ++ rest⟩ : Tail).Reads src) :
    Fragment.trimmed (moved src offset) (crlf cs) =
      (Fragment.trimmed offset cs).respelt src := by
  obtain ⟨pad, -, hcs, -⟩ := exists_trim_append cs
  have hlead : cs.takeWhile isWhiteSpace <+: cs ++ rest :=
    (List.takeWhile_prefix _).trans (List.prefix_append cs rest)
  have hmoved : moved src (offset + byteLength (cs.takeWhile isWhiteSpace)) = _ :=
    h.moved_add hlead
  have htrim : (⟨offset + byteLength (cs.takeWhile isWhiteSpace), trim cs ++ (pad ++ rest)⟩ :
      Tail).Reads src := by
    have hchars : cs ++ rest = cs.takeWhile isWhiteSpace ++ (trim cs ++ (pad ++ rest)) := by
      have hwhole := congrArg (· ++ rest) hcs
      simp only [List.append_assoc] at hwhole
      exact hwhole
    refine ⟨Tail.Fits.append offset _ _ ?_, ?_⟩
    · rw [← hchars]
      exact h.fits
    · have hsuffix : trim cs ++ (pad ++ rest) <:+ cs ++ rest := ⟨_, hchars.symm⟩
      exact hsuffix.trans h.suffix
  rw [Fragment.trimmed, Fragment.trimmed, trim_crlf, takeWhile_crlf isWhiteSpace_return, ← hmoved]
  exact Fragment.ofChars_respelt htrim

/-! ## Positions -/

/-- The line and the column of a position. -/
def Position.coordinates (p : Position) : Nat × Nat := (p.line, p.column)

/-- A place keeps its line and its column in the other spelling. -/
theorem Source.coordinates_positionAt_moved (source : String) (n : Nat) :
    ((Source.ofString (toCrlf source)).positionAt (moved source.toList n)).coordinates =
      ((Source.ofString source).positionAt n).coordinates := by
  have htake : takeBytes (moved source.toList n) (toCrlf source).toList =
      crlf (takeBytes n source.toList) := by
    have hcut := congrArg crlf (takeBytes_append_dropBytes n source.toList)
    rw [crlf_append] at hcut
    rw [toCrlf, String.toList_ofList, ← hcut, moved, takeBytes_append]
  rw [Source.positionAt_eq, Source.positionAt_eq]
  show (_, _) = (_, _)
  simp only [Source.ofString, htake, count_newline_crlf, lastLine_crlf]

end SwitchMarkup

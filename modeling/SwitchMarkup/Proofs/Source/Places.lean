import SwitchMarkup.Expression.Extract
import SwitchMarkup.Proofs.Text.Runs
import SwitchMarkup.Source.Basic

/-!
# Places as texts still to be read

A place of a source can be given by its offset or by the text that stands behind it, and the second
does not change when text is put in front. `placeIn` turns a text behind a place into an offset. A
tail whose offset and text agree in this sense fits its source, and every reader keeps that, so
that a tail is known from its characters alone.
-/

namespace SwitchMarkup

variable {p : Char → Bool} {cs ds rest run word : List Char} {t u : Tail} {total offset : Nat}

/-- The offset of the place in front of `rest`, in a source of `total` bytes. -/
def placeIn (total : Nat) (rest : List Char) : Nat := total - byteLength rest

/-- The tail reaches to the end of a source of `total` bytes. -/
def Tail.Fits (total : Nat) (t : Tail) : Prop := t.offset + byteLength t.chars = total

/-- The tail is the end of a source. -/
structure Tail.EndOf (source : List Char) (t : Tail) : Prop where
  fits : t.Fits (byteLength source)
  suffix : t.chars <:+ source

/-- The trimmed piece `run` of a text that goes on with `rest`, its places given by the text behind
them. -/
def Fragment.ofRun (run rest : List Char) : Fragment (List Char) :=
  ⟨String.ofList (trim run), ⟨trimStart run ++ rest, (trimStart run).drop (trim run).length ++ rest⟩⟩

/-! ## Tails that fit -/

theorem Tail.fits_start (cs : List Char) : (Tail.start cs).Fits (byteLength cs) :=
  Nat.zero_add _

/-- What is left to read at a boundary fits the source. -/
theorem Tail.fits_dropBytes (h : isBoundary offset cs = true) :
    (⟨offset, dropBytes offset cs⟩ : Tail).Fits (byteLength cs) := by
  have hcut := congrArg byteLength (takeBytes_append_dropBytes offset cs)
  rw [byteLength_append, byteLength_takeBytes h] at hcut
  exact hcut

theorem Tail.Fits.offset_eq (h : t.Fits total) : t.offset = placeIn total t.chars := by
  rw [placeIn, ← h]
  omega

/-- Tails that fit and have the same text are the same. -/
theorem Tail.Fits.eq (ht : t.Fits total) (hu : u.Fits total) (h : t.chars = u.chars) : t = u := by
  have hoffset := ht.offset_eq
  rw [h, ← hu.offset_eq] at hoffset
  obtain ⟨offset, cs⟩ := t
  obtain ⟨offset', cs'⟩ := u
  exact congr (congrArg Tail.mk hoffset) h

/-- Behind the front of a tail that fits there is another one. -/
theorem Tail.Fits.append (offset : Nat) (cs ds : List Char)
    (h : (⟨offset, cs ++ ds⟩ : Tail).Fits total) :
    (⟨offset + byteLength cs, ds⟩ : Tail).Fits total := by
  have hsum : offset + byteLength (cs ++ ds) = total := h
  rw [byteLength_append] at hsum
  show offset + byteLength cs + byteLength ds = total
  omega

theorem Tail.Fits.skipWhile (h : t.Fits total) (p : Char → Bool) : (t.skipWhile p).Fits total := by
  refine Tail.Fits.append t.offset (t.chars.takeWhile p) _ ?_
  rw [List.takeWhile_append_dropWhile]
  exact h

theorem Tail.Fits.goTo (h : t.Fits total) (hrest : rest <:+ t.chars) :
    (t.goTo rest).Fits total := by
  refine Tail.Fits.append t.offset (upTo rest t.chars) rest ?_
  rw [Tail.upTo_append hrest]
  exact h

theorem Tail.Fits.drop? (h : t.Fits total) (hu : t.drop? word = some u) : u.Fits total := by
  obtain ⟨hchars, hoffset⟩ := Tail.drop?_eq_some hu
  have hsum : t.offset + byteLength t.chars = total := h
  rw [hchars, byteLength_append] at hsum
  rw [Tail.Fits, hoffset]
  omega

theorem Tail.startsWith_iff : t.startsWith word = true ↔ word <+: t.chars :=
  List.isPrefixOf_iff_prefix

/-- Taking a word off a tail that fits takes it off the text. -/
theorem Tail.drop?_eq_some_iff (h : t.Fits total) :
    t.drop? word = some u ↔ t.chars = word ++ u.chars ∧ u.Fits total := by
  constructor
  · intro hu
    exact ⟨(Tail.drop?_eq_some hu).1, h.drop? hu⟩
  · rintro ⟨hchars, hu⟩
    have hword : t.startsWith word = true :=
      Tail.startsWith_iff.2 ⟨u.chars, hchars.symm⟩
    have hdrop : t.drop? word = some ⟨t.offset + byteLength word, t.chars.drop word.length⟩ := by
      rw [Tail.drop?, if_pos hword]
    rw [hdrop]
    refine congrArg some (Tail.Fits.eq (h.drop? hdrop) hu ?_)
    simp [hchars]

/-- A word is not taken just where it does not come next. -/
theorem Tail.drop?_eq_none_iff : t.drop? word = none ↔ ¬word <+: t.chars := by
  rw [← Tail.startsWith_iff, Tail.drop?]
  split
  · next h => simp [h]
  · next h => simp [h]

theorem Tail.chars_skipWhile (p : Char → Bool) (t : Tail) :
    (t.skipWhile p).chars = t.chars.dropWhile p := rfl

theorem upTo_eq (cs rest : List Char) : upTo rest (cs ++ rest) = cs := by
  simp [upTo]

/-! ## Ends of a source -/

section EndOf

variable {source : List Char}

theorem Tail.EndOf.skipWhile (ht : t.EndOf source) (p : Char → Bool) :
    (t.skipWhile p).EndOf source :=
  ⟨ht.fits.skipWhile p, (Tail.skipWhile_suffix p t).trans ht.suffix⟩

theorem Tail.EndOf.goTo (ht : t.EndOf source) (hrest : rest <:+ t.chars) :
    (t.goTo rest).EndOf source :=
  ⟨ht.fits.goTo hrest, hrest.trans ht.suffix⟩

theorem Tail.EndOf.drop? (ht : t.EndOf source) (hu : t.drop? word = some u) : u.EndOf source :=
  ⟨ht.fits.drop? hu, (Tail.drop?_suffix hu).trans ht.suffix⟩

theorem Tail.EndOf.skipBlanks? (ht : t.EndOf source) (hu : t.skipBlanks? = some u) :
    u.EndOf source := by
  rw [Tail.skipBlanks?] at hu
  split at hu
  · obtain rfl := Option.some.inj hu
    exact ht.skipWhile isBlank
  · cases hu

theorem Tail.EndOf.dropLineEnd? (ht : t.EndOf source) (hu : t.dropLineEnd? = some u) :
    u.EndOf source := by
  rw [Tail.dropLineEnd?, Option.or_eq_some_iff] at hu
  rcases hu with hfeed | ⟨-, hreturn⟩
  · exact ht.drop? hfeed
  · exact ht.drop? hreturn

/-- A tail that ends a source begins behind the text that is in front of it. -/
theorem Tail.EndOf.exists_front (ht : t.EndOf source) :
    ∃ front, source = front ++ t.chars ∧ t.offset = byteLength front := by
  obtain ⟨front, rfl⟩ := ht.suffix
  refine ⟨front, rfl, ?_⟩
  rw [ht.fits.offset_eq, placeIn, byteLength_append, Nat.add_sub_cancel]

end EndOf

/-! ## Pieces of source -/

/-- A trimmed piece is the same whether its places are read as texts or as offsets. -/
theorem Fragment.trimmed_eq (h : (⟨offset, run ++ rest⟩ : Tail).Fits total) :
    Fragment.trimmed offset run = (Fragment.ofRun run rest).map (placeIn total) := by
  obtain ⟨pad, hpad, hrun, htrim⟩ := exists_trim_append run
  have hsum : offset + byteLength (run ++ rest) = total := h
  rw [hrun] at hsum
  simp only [byteLength_append] at hsum
  have hdrop : (trimStart run).drop (trim run).length = pad := by rw [htrim]; simp
  have hstart : placeIn total (trimStart run ++ rest) =
      offset + byteLength (run.takeWhile isWhiteSpace) := by
    rw [placeIn, htrim, byteLength_append, byteLength_append]
    omega
  have hstop : placeIn total (pad ++ rest) =
      offset + byteLength (run.takeWhile isWhiteSpace) + byteLength (trim run) := by
    rw [placeIn, byteLength_append]
    omega
  simp only [Fragment.trimmed, Fragment.ofChars, Fragment.ofRun, Fragment.map, Span.map, hdrop,
    hstart, hstop]

/-- A text that begins visibly is trimmed at its end only. -/
theorem Fragment.ofChars_trimEnd (h : Stops isWhiteSpace run) :
    Fragment.ofChars offset (trimEnd run) = Fragment.trimmed offset run := by
  rw [Fragment.trimmed, takeWhile_eq_nil h, trim_eq_trimEnd h]
  rfl

/-- A piece that needs no trimming, at an offset. -/
theorem Fragment.ofChars_eq (h : (⟨offset, run ++ rest⟩ : Tail).Fits total)
    (hrun : trim run = run) :
    Fragment.ofChars offset run = (Fragment.ofRun run rest).map (placeIn total) := by
  obtain ⟨hstart, hend⟩ := trim_eq_self_iff.1 hrun
  rw [← Fragment.trimmed_eq h, ← Fragment.ofChars_trimEnd hstart, trimEnd_eq_self hend]

theorem Fragment.ofRun_map_append (run rest ds : List Char) :
    (Fragment.ofRun run rest).map (· ++ ds) = Fragment.ofRun run (rest ++ ds) := by
  simp only [Fragment.ofRun, Fragment.map, Span.map, List.append_assoc]

@[simp] theorem Fragment.value_ofRun (run rest : List Char) :
    (Fragment.ofRun run rest).value = String.ofList (trim run) := rfl

/-- The stretch of a trimmed piece lies between the white space around it. -/
theorem Fragment.exists_span_ofRun (run rest : List Char) :
    ∃ lead pad, IsRun isWhiteSpace lead ∧ IsRun isWhiteSpace pad ∧
      run = lead ++ (trim run ++ pad) ∧
      (Fragment.ofRun run rest).span = ⟨trim run ++ (pad ++ rest), pad ++ rest⟩ := by
  obtain ⟨pad, hpad, hrun, htrim⟩ := exists_trim_append run
  refine ⟨run.takeWhile isWhiteSpace, pad, isRun_takeWhile isWhiteSpace run, hpad, hrun, ?_⟩
  have hdrop : (trimStart run).drop (trim run).length = pad := by
    rw [htrim, List.drop_left]
  rw [Fragment.ofRun, hdrop, htrim, List.append_assoc]

/-! ## Positions of a source -/

/-- The position in front of the end `rest` of a source. -/
def Source.placeBefore (source : Source) (rest : List Char) : Position :=
  source.positionAt (placeIn source.length rest)

/-- Behind the bytes of a front stands the rest. -/
theorem dropBytes_append (cs ds : List Char) : dropBytes (byteLength cs) (cs ++ ds) = ds := by
  induction cs with
  | nil => rw [byteLength_nil, List.nil_append, dropBytes]
  | cons c cs ih =>
    have hpos : 0 < c.utf8Size := c.utf8Size_pos
    cases hn : byteLength (c :: cs) with
    | zero =>
      rw [byteLength_cons] at hn
      omega
    | succ n =>
      have hrest : n + 1 - c.utf8Size = byteLength cs := by
        rw [← hn, byteLength_cons, Nat.add_sub_cancel_left]
      rw [List.cons_append, dropBytes, hrest]
      exact ih

/-- Between a front and the rest there is a boundary. -/
theorem isBoundary_append (cs ds : List Char) : isBoundary (byteLength cs) (cs ++ ds) = true := by
  induction cs with
  | nil => rw [byteLength_nil, isBoundary]
  | cons c cs ih =>
    have hpos : 0 < c.utf8Size := c.utf8Size_pos
    cases hn : byteLength (c :: cs) with
    | zero =>
      rw [byteLength_cons] at hn
      omega
    | succ n =>
      rw [byteLength_cons] at hn
      have hrest : n + 1 - c.utf8Size = byteLength cs := by omega
      have hle : c.utf8Size ≤ n + 1 := by omega
      rw [List.cons_append, isBoundary, hrest, ih, Bool.and_true]
      exact decide_eq_true hle

/-- Every character has a byte. -/
theorem length_le_byteLength (cs : List Char) : cs.length ≤ byteLength cs := by
  induction cs with
  | nil => exact Nat.le_refl 0
  | cons c cs ih =>
    have hpos : 0 < c.utf8Size := c.utf8Size_pos
    rw [List.length_cons, byteLength_cons]
    omega

/-- The offset of a place is the length of what stands in front of it. -/
theorem placeIn_append_right (front rest : List Char) :
    placeIn (byteLength (front ++ rest)) rest = byteLength front := by
  rw [placeIn, byteLength_append, Nat.add_sub_cancel]

/-- Behind the offset of a place stands the text that the place was given by. -/
theorem dropBytes_placeIn (h : rest <:+ cs) : dropBytes (placeIn (byteLength cs) rest) cs = rest := by
  obtain ⟨front, rfl⟩ := h
  rw [placeIn_append_right, dropBytes_append]

theorem Source.index_placeBefore_eq (source : Source) (rest : List Char) :
    (source.placeBefore rest).index = placeIn source.length rest := by
  show min (source.length - byteLength rest) source.length = source.length - byteLength rest
  omega

/-- The index of a place is the length of what stands in front of it. -/
theorem Source.index_placeBefore {source : String} (cs rest : List Char)
    (h : cs ++ rest = source.toList) :
    ((Source.ofString source).placeBefore rest).index = byteLength cs := by
  show min (byteLength source.toList - byteLength rest) (byteLength source.toList) = _
  rw [← h, byteLength_append]
  omega

/-- Behind the index of a place stands the text that the place was given by. -/
theorem Source.dropBytes_placeBefore {source : String} (h : rest <:+ source.toList) :
    dropBytes ((Source.ofString source).placeBefore rest).index source.toList = rest := by
  obtain ⟨cs, hcs⟩ := h
  rw [Source.index_placeBefore cs rest hcs, ← hcs, dropBytes_append]

end SwitchMarkup

import SwitchMarkup.Proofs.Source.Lines

/-!
# Positions follow the order of offsets

Text between two offsets moves a position on: a line feed in it takes the position to a later line,
and text without one takes it to a later column of the same line. So positions come in the order of
their offsets, and a line and a column belong to one offset only. Main statement:
`Source.positionAt?_scan`.
-/

namespace SwitchMarkup

variable {offset i j : Nat} {front mid rest cs : List Char}

/-! ## Boundaries as cuts -/

/-- An offset between two characters cuts the text in two. -/
theorem exists_append_of_isBoundary (h : isBoundary offset cs = true) :
    ∃ front rest, cs = front ++ rest ∧ offset = byteLength front := by
  refine ⟨takeBytes offset cs, dropBytes offset cs, ?_, ?_⟩
  · exact (takeBytes_append_dropBytes offset cs).symm
  · exact (byteLength_takeBytes h).symm

/-- Between two boundaries stands the text that the larger offset takes more than the smaller. -/
theorem exists_takeBytes_append (hj : isBoundary j cs = true) (hi : isBoundary i cs = true)
    (hlt : i < j) : ∃ mid, mid ≠ [] ∧ takeBytes j cs = takeBytes i cs ++ mid := by
  obtain ⟨front, rest, hcs, rfl⟩ := exists_append_of_isBoundary hj
  have htake : takeBytes (byteLength front) cs = front := by
    rw [hcs]
    exact takeBytes_append front rest
  have hsmaller : takeBytes i cs = takeBytes i front := by
    rw [hcs]
    exact takeBytes_append_of_le (Nat.le_of_lt hlt) rest
  refine ⟨dropBytes i front, ?_, ?_⟩
  · intro hnil
    have hwhole := takeBytes_append_dropBytes i front
    rw [hnil, List.append_nil, ← hsmaller] at hwhole
    have hlength := byteLength_takeBytes hi
    rw [hwhole] at hlength
    omega
  · rw [htake, hsmaller]
    exact (takeBytes_append_dropBytes i front).symm

/-! ## Text that moves a position on -/

/-- Text without a line feed goes on with the last line. -/
theorem lastLine_append (h : '\n' ∉ mid) : lastLine (front ++ mid) = lastLine front ++ mid := by
  induction front with
  | nil => rw [List.nil_append, lastLine_of_not_mem h]; rfl
  | cons c front ih =>
    by_cases hfeed : '\n' ∈ c :: front
    · have hwhole : '\n' ∈ c :: (front ++ mid) := List.mem_append_left mid hfeed
      rw [List.cons_append, lastLine, if_pos hwhole, ih, lastLine, if_pos hfeed]
    · have hwhole : '\n' ∉ c :: front ++ mid := by
        intro hmem
        rcases List.mem_append.1 hmem with hmem | hmem
        · exact hfeed hmem
        · exact h hmem
      rw [lastLine_of_not_mem hwhole, lastLine_of_not_mem hfeed]

namespace Position

/-- The position stands on an earlier line, or on the same line at an earlier column. -/
def Precedes (p q : Position) : Prop := p.line < q.line ∨ p.line = q.line ∧ p.column < q.column

theorem Precedes.not_same {p q : Position} (h : p.Precedes q) :
    ¬(p.line = q.line ∧ p.column = q.column) := by
  rintro ⟨hline, hcolumn⟩
  rcases h with h | ⟨-, h⟩
  · omega
  · omega

end Position

/-! ## What a cursor is told -/

namespace Source

/-- An offset up to the end that splits no character is a boundary of the text. -/
theorem isBoundary_iff {source : Source} (hle : i ≤ source.length) :
    source.isBoundary i = true ↔ SwitchMarkup.isBoundary i source.chars = true := by
  rw [isBoundary, Nat.min_eq_left hle]

theorem positionAt?_of_isBoundary {source : Source} (h : source.isBoundary i = true) :
    source.positionAt? i = some (source.positionAt i) := by
  rw [positionAt?, if_pos h]

/-- The position behind the text `front` is what a scan of that text finds. -/
theorem positionAt_byteLength {source : String} (h : front ++ rest = source.toList) :
    (ofString source).positionAt (byteLength front) =
      ⟨byteLength front, front.count '\n' + 1, (lastLine front).length + 1⟩ := by
  have htake : takeBytes (byteLength front) (ofString source).chars = front := by
    show takeBytes (byteLength front) source.toList = front
    rw [← h, takeBytes_append]
  have hmin : min (byteLength front) (ofString source).length = byteLength front := by
    show min (byteLength front) (byteLength source.toList) = byteLength front
    rw [← h, byteLength_append]
    omega
  rw [positionAt_eq, htake, hmin]

/-- Positions come in the order of their offsets. -/
theorem positionAt_precedes {source : Source} (hle : j ≤ source.length)
    (hi : source.isBoundary i = true) (hj : source.isBoundary j = true) (hlt : i < j) :
    (source.positionAt i).Precedes (source.positionAt j) := by
  have hi' := (isBoundary_iff (Nat.le_trans (Nat.le_of_lt hlt) hle)).1 hi
  have hj' := (isBoundary_iff hle).1 hj
  obtain ⟨mid, hne, hmid⟩ := exists_takeBytes_append hj' hi' hlt
  rw [positionAt_eq, positionAt_eq, hmid]
  by_cases hfeed : '\n' ∈ mid
  · left
    have hpos : 0 < mid.count '\n' := List.count_pos_iff.2 hfeed
    show (takeBytes i source.chars).count '\n' + 1 <
      (takeBytes i source.chars ++ mid).count '\n' + 1
    rw [List.count_append]
    omega
  · right
    have hzero : mid.count '\n' = 0 := List.count_eq_zero.2 hfeed
    have hpos : 0 < mid.length := List.length_pos_iff.2 hne
    constructor
    · show (takeBytes i source.chars).count '\n' + 1 =
        (takeBytes i source.chars ++ mid).count '\n' + 1
      rw [List.count_append, hzero, Nat.add_zero]
    · show (lastLine (takeBytes i source.chars)).length + 1 <
        (lastLine (takeBytes i source.chars ++ mid)).length + 1
      rw [lastLine_append hfeed, List.length_append]
      omega

/-- Of two offsets within the source the smaller one has the earlier position. -/
theorem positionAt?_precedes {source : Source} {p q : Position} (hle : j ≤ source.length)
    (hp : source.positionAt? i = some p) (hq : source.positionAt? j = some q) (hlt : i < j) :
    p.Precedes q := by
  rw [positionAt?] at hp hq
  split at hp
  next hi =>
    split at hq
    next hj =>
      cases hp
      cases hq
      exact positionAt_precedes hle hi hj hlt
    next => cases hq
  next => cases hp

/-- At every offset that splits no character a cursor is told what a scan of the text in front of it
finds, and past the end what it is told at the end. Positions come in the order of their offsets, so
that a line and a column determine the offset. -/
theorem positionAt?_scan (source : Source) :
    (∀ i, i ≤ source.length → source.isBoundary i = true →
      source.positionAt? i =
        some ⟨i, (takeBytes i source.chars).count '\n' + 1,
          (lastLine (takeBytes i source.chars)).length + 1⟩) ∧
    (∀ i, source.length < i → source.positionAt? i = source.positionAt? source.length) ∧
    (∀ i j p q, i ≤ source.length → j ≤ source.length →
      source.positionAt? i = some p → source.positionAt? j = some q →
      (i < j → p.Precedes q) ∧ (p.line = q.line → p.column = q.column → i = j)) := by
  refine ⟨?_, ?_, ?_⟩
  · intro i hle hi
    rw [positionAt?_of_isBoundary hi, positionAt_eq, Nat.min_eq_left hle]
  · intro i hlt
    have hmin : min i source.length = min source.length source.length := by omega
    rw [positionAt?, positionAt?, isBoundary, isBoundary, hmin, positionAt, positionAt, hmin]
  · intro i j p q hi hj hp hq
    refine ⟨positionAt?_precedes hj hp hq, fun hline hcolumn => ?_⟩
    rcases Nat.lt_trichotomy i j with hlt | heq | hgt
    · exact absurd ⟨hline, hcolumn⟩ (positionAt?_precedes hj hp hq hlt).not_same
    · exact heq
    · exact absurd ⟨hline.symm, hcolumn.symm⟩ (positionAt?_precedes hi hq hp hgt).not_same

/-- Two lines of characters of one to four bytes: the place between the last two of them, one past
the end, and the order of two places of the second line. -/
theorem positionAt?_scan_wide :
    (ofString "é😀\n€b").positionAt? 10 = some ⟨10, 2, 2⟩ ∧
      (ofString "é😀\n€b").positionAt? 99 = (ofString "é😀\n€b").positionAt? 11 ∧
      Position.Precedes ⟨7, 2, 1⟩ ⟨10, 2, 2⟩ := by
  obtain ⟨hscan, hpast, horder⟩ := positionAt?_scan (ofString "é😀\n€b")
  refine ⟨hscan 10 (by decide) (by decide), hpast 99 (by decide), ?_⟩
  exact (horder 7 10 ⟨7, 2, 1⟩ ⟨10, 2, 2⟩ (by decide) (by decide) (by decide +kernel)
    (by decide +kernel)).1 (by decide)

end Source

end SwitchMarkup

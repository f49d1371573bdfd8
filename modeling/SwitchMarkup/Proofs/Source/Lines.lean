import SwitchMarkup.Source.Basic

/-!
# Positions by a plain scan

A line table answers by bisection. What it answers is what a scan of the text in front of an offset
finds: the line is one more than the number of line feeds there, and the column is one more than
the number of characters behind the last of them. Text in front that ends in a line feed therefore
moves lines along and leaves columns as they are. Main statements: `Source.positionAt_eq`,
`Source.positionAt_append_of_le` and `Source.positionAt_append_add`.
-/

namespace SwitchMarkup

variable {n offset : Nat} {c : Char} {cs ds : List Char}

/-! ## Cutting a text at a byte offset -/

theorem takeBytes_zero (cs : List Char) : takeBytes 0 cs = [] := by
  rw [takeBytes]

theorem takeBytes_of_le (h : byteLength cs ≤ n) : takeBytes n cs = cs := by
  induction cs generalizing n with
  | nil =>
    cases n with
    | zero => rfl
    | succ n => rfl
  | cons c cs ih =>
    rw [byteLength_cons] at h
    have hpos : 0 < c.utf8Size := c.utf8Size_pos
    obtain ⟨n, rfl⟩ : ∃ m, n = m + 1 := ⟨n - 1, by omega⟩
    rw [takeBytes, ih (by omega)]

theorem takeBytes_min (n : Nat) (cs : List Char) :
    takeBytes (min n (byteLength cs)) cs = takeBytes n cs := by
  rcases Nat.le_total n (byteLength cs) with h | h
  · rw [Nat.min_eq_left h]
  · rw [Nat.min_eq_right h, takeBytes_of_le h, takeBytes_of_le (Nat.le_refl _)]

/-- Bytes of the first of two texts are taken from it alone. -/
theorem takeBytes_append_of_le (h : n ≤ byteLength cs) (ds : List Char) :
    takeBytes n (cs ++ ds) = takeBytes n cs := by
  induction cs generalizing n with
  | nil =>
    obtain rfl : n = 0 := Nat.le_zero.1 h
    rw [takeBytes_zero, takeBytes_zero]
  | cons c cs ih =>
    rw [byteLength_cons] at h
    cases n with
    | zero => rfl
    | succ n => rw [List.cons_append, takeBytes, takeBytes, ih (by omega)]

/-- Bytes beyond the first of two texts are taken from the second. -/
theorem takeBytes_append_add (n : Nat) (cs ds : List Char) :
    takeBytes (n + byteLength cs) (cs ++ ds) = cs ++ takeBytes n ds := by
  induction cs with
  | nil => rfl
  | cons c cs ih =>
    have hpos : 0 < c.utf8Size := c.utf8Size_pos
    obtain ⟨m, hm⟩ : ∃ m, n + byteLength (c :: cs) = m + 1 :=
      ⟨n + byteLength (c :: cs) - 1, by rw [byteLength_cons]; omega⟩
    have hrest : m + 1 - c.utf8Size = n + byteLength cs := by
      rw [← hm, byteLength_cons]
      omega
    rw [hm, List.cons_append, takeBytes, hrest, ih]
    rfl

theorem takeBytes_append (cs ds : List Char) : takeBytes (byteLength cs) (cs ++ ds) = cs := by
  have h := takeBytes_append_add 0 cs ds
  rw [Nat.zero_add, takeBytes_zero, List.append_nil] at h
  exact h

theorem isPrefix_takeBytes (n : Nat) (cs : List Char) : takeBytes n cs <+: cs :=
  ⟨dropBytes n cs, takeBytes_append_dropBytes n cs⟩

/-! ## The last line of a text -/

/-- The characters behind the last line feed of a text, all of them if there is none. -/
def lastLine : List Char → List Char
  | [] => []
  | c :: cs => if '\n' ∈ c :: cs then lastLine cs else c :: cs

theorem lastLine_of_not_mem (h : '\n' ∉ cs) : lastLine cs = cs := by
  cases cs with
  | nil => rfl
  | cons c cs => rw [lastLine, if_neg h]

theorem lastLine_newline (cs : List Char) : lastLine ('\n' :: cs) = lastLine cs := by
  rw [lastLine, if_pos List.mem_cons_self]

theorem lastLine_append_newline (cs ds : List Char) :
    lastLine (cs ++ '\n' :: ds) = lastLine ds := by
  induction cs with
  | nil => exact lastLine_newline ds
  | cons c cs ih =>
    rw [List.cons_append, lastLine, if_pos (by simp), ih]

/-! ## Line tables -/

namespace LineTable

theorem length_startsIn (offset : Nat) (cs : List Char) :
    (startsIn offset cs).length = cs.count '\n' := by
  induction cs generalizing offset with
  | nil => rfl
  | cons c cs ih =>
    rw [startsIn]
    split
    next hc => rw [List.length_cons, ih, hc, List.count_cons_self]
    next hc => rw [ih, List.count_cons_of_ne hc]

/-- Every line start stands behind the line feed in front of it. -/
theorem lt_offset_of_mem_startsIn {t : Tail} (h : t ∈ startsIn offset cs) : offset < t.offset := by
  induction cs generalizing offset with
  | nil => cases h
  | cons c cs ih =>
    have hpos : 0 < c.utf8Size := c.utf8Size_pos
    rw [startsIn] at h
    split at h
    · rcases List.mem_cons.1 h with rfl | h
      · show offset < offset + c.utf8Size
        omega
      · have := ih h
        omega
    · have := ih h
      omega

/-- The lines that begin within the first `n` bytes are those behind the line feeds there. -/
theorem offset_startsIn_le_iff {i : Nat} (hi : i < (startsIn offset cs).length) :
    (startsIn offset cs)[i].offset ≤ offset + n ↔ i < (takeBytes n cs).count '\n' := by
  fun_induction takeBytes n cs generalizing offset i with
  | case1 cs =>
    have := lt_offset_of_mem_startsIn (List.getElem_mem hi)
    rw [List.count_nil]
    omega
  | case2 n => exact absurd hi (Nat.not_lt_zero i)
  | case3 n c cs ih =>
    by_cases hc : c = '\n'
    · subst hc
      have hstarts : startsIn offset ('\n' :: cs) =
          ⟨offset + 1, cs⟩ :: startsIn (offset + 1) cs := by
        rw [startsIn, if_pos rfl]
        rfl
      simp only [hstarts, List.count_cons_self]
      cases i with
      | zero =>
        rw [List.getElem_cons_zero]
        show offset + 1 ≤ offset + (n + 1) ↔ _
        omega
      | succ i =>
        rw [hstarts, List.length_cons] at hi
        rw [List.getElem_cons_succ, Nat.add_lt_add_iff_right, ← ih (Nat.lt_of_succ_lt_succ hi)]
        show _ ≤ offset + (n + 1) ↔ _ ≤ offset + 1 + (n + 1 - 1)
        omega
    · have hstarts : startsIn offset (c :: cs) = startsIn (offset + c.utf8Size) cs := by
        rw [startsIn, if_neg hc]
      simp only [hstarts] at hi ⊢
      rw [List.count_cons_of_ne hc, ← ih hi]
      have hlt := lt_offset_of_mem_startsIn (List.getElem_mem hi)
      omega

/-- The last line that begins within the first `n` bytes, and what these bytes hold of it. -/
theorem exists_lastStart (offset n : Nat) (cs : List Char) :
    ∃ t : Tail, (⟨offset, cs⟩ :: startsIn offset cs)[(takeBytes n cs).count '\n']? = some t ∧
      takeBytes (offset + n - t.offset) t.chars = lastLine (takeBytes n cs) := by
  fun_induction takeBytes n cs generalizing offset with
  | case1 cs => exact ⟨⟨offset, cs⟩, rfl, by simp [takeBytes_zero, lastLine]⟩
  | case2 n =>
    refine ⟨⟨offset, []⟩, rfl, ?_⟩
    rw [Nat.add_sub_cancel_left]
    rfl
  | case3 n c cs ih =>
    obtain ⟨t, ht, hline⟩ := ih (offset + c.utf8Size)
    by_cases hc : c = '\n'
    · subst hc
      refine ⟨t, ?_, ?_⟩
      · rw [List.count_cons_self, List.getElem?_cons_succ, startsIn, if_pos rfl]
        exact ht
      · rw [lastLine_newline, ← hline]
        congr 1
        show offset + (n + 1) - t.offset = offset + 1 + (n + 1 - 1) - t.offset
        omega
    · rw [List.count_cons_of_ne hc]
      by_cases hfeed : '\n' ∈ takeBytes (n + 1 - c.utf8Size) cs
      · obtain ⟨k, hk⟩ : ∃ k, (takeBytes (n + 1 - c.utf8Size) cs).count '\n' = k + 1 :=
          Nat.exists_eq_add_one.2 (List.count_pos_iff.2 hfeed)
        -- A character that does not fit has nothing behind it.
        have hfits : c.utf8Size ≤ n + 1 := by
          refine Nat.le_of_not_lt fun hlt => ?_
          rw [Nat.sub_eq_zero_of_le (Nat.le_of_lt hlt), takeBytes_zero] at hfeed
          cases hfeed
        refine ⟨t, ?_, ?_⟩
        · rw [hk, List.getElem?_cons_succ] at ht ⊢
          rw [startsIn, if_neg hc]
          exact ht
        · rw [lastLine, if_pos (List.mem_cons_of_mem c hfeed), ← hline]
          congr 1
          omega
      · refine ⟨⟨offset, c :: cs⟩, ?_, ?_⟩
        · rw [List.count_eq_zero.2 hfeed]
          rfl
        · have hnone : '\n' ∉ c :: takeBytes (n + 1 - c.utf8Size) cs :=
            List.not_mem_cons_of_ne_of_not_mem (Ne.symm hc) hfeed
          rw [lastLine_of_not_mem hnone, Nat.add_sub_cancel_left, takeBytes]

/-- Bisection finds the number of entries up to an offset, if these come first. -/
theorem firstBeyond_eq {starts : Array Tail} {lo hi k : Nat} {bound : hi ≤ starts.size}
    (hstarts : ∀ i (h : i < starts.size), starts[i].offset ≤ offset ↔ i < k)
    (hlo : lo ≤ k) (hhi : k ≤ hi) : firstBeyond starts offset lo hi bound = k := by
  fun_induction firstBeyond starts offset lo hi bound with
  | case1 lo hi bound hlt mid hmid hle ih =>
    have := (hstarts mid hmid).1 hle
    exact ih (by omega) hhi
  | case2 lo hi bound hlt mid hmid hle ih =>
    have := mt (hstarts mid hmid).2 hle
    exact ih hlo (by omega)
  | case3 lo hi bound hge => omega

/-- The line of an offset is one more than the line feeds in front of it. -/
theorem lineOf_ofChars (n : Nat) (cs : List Char) :
    (ofChars cs).lineOf n = (takeBytes n cs).count '\n' + 1 := by
  have hcount : (takeBytes n cs).count '\n' ≤ cs.count '\n' :=
    (isPrefix_takeBytes n cs).sublist.count_le '\n'
  refine firstBeyond_eq (fun i hi => ?_) (Nat.zero_le _) ?_
  · cases i with
    | zero => exact iff_of_true (Nat.zero_le n) (Nat.succ_pos _)
    | succ i =>
      have hi' : i < (startsIn 0 cs).length := Nat.lt_of_succ_lt_succ hi
      have h := offset_startsIn_le_iff (n := n) hi'
      rw [Nat.zero_add] at h
      rw [Nat.add_lt_add_iff_right, ← h]
      rfl
  · show _ ≤ (startsIn 0 cs).length + 1
    rw [length_startsIn]
    omega

theorem startOf_ofChars (n : Nat) (cs : List Char) :
    takeBytes (n - ((ofChars cs).startOf ((takeBytes n cs).count '\n' + 1)).offset)
        ((ofChars cs).startOf ((takeBytes n cs).count '\n' + 1)).chars =
      lastLine (takeBytes n cs) := by
  obtain ⟨t, ht, hline⟩ := exists_lastStart 0 n cs
  have hstart : (ofChars cs).startOf ((takeBytes n cs).count '\n' + 1) = t := by
    rw [startOf, Nat.add_sub_cancel, Array.getD_eq_getD_getElem?, ofChars, List.getElem?_toArray]
    exact congrArg (Option.getD · _) ht
  rw [hstart, ← hline, Nat.zero_add]

end LineTable

/-! ## Positions -/

/-- The position of an offset is what a scan of the text in front of it finds. -/
theorem Source.positionAt_eq (source : Source) (n : Nat) :
    source.positionAt n =
      ⟨min n source.length, (takeBytes n source.chars).count '\n' + 1,
        (lastLine (takeBytes n source.chars)).length + 1⟩ := by
  have hmin := takeBytes_min n source.chars
  rw [← source.length_eq] at hmin
  have hstart := LineTable.startOf_ofChars (min n source.length) source.chars
  rw [hmin] at hstart
  simp only [Source.positionAt, source.lines_eq, LineTable.lineOf_ofChars, hmin, hstart]

namespace Position

/-- A position in a source that stands behind the text `cs`, if its column stays the same. -/
def behind (cs : List Char) (p : Position) : Position :=
  ⟨p.index + byteLength cs, p.line + cs.count '\n', p.column⟩

end Position

/-- A position does not change if text is added behind it. -/
theorem Source.positionAt_append_of_le {front back : String} (h : n ≤ byteLength front.toList) :
    (Source.ofString (front ++ back)).positionAt n = (Source.ofString front).positionAt n := by
  have htake : takeBytes n (front ++ back).toList = takeBytes n front.toList := by
    rw [String.toList_append, takeBytes_append_of_le h]
  rw [Source.positionAt_eq, Source.positionAt_eq]
  show Position.mk (min n (byteLength (front ++ back).toList))
      ((takeBytes n (front ++ back).toList).count '\n' + 1)
      ((lastLine (takeBytes n (front ++ back).toList)).length + 1) =
    Position.mk (min n (byteLength front.toList)) _ _
  rw [htake, Nat.min_eq_left h, String.toList_append, byteLength_append,
    Nat.min_eq_left (Nat.le_add_right_of_le h)]
  rfl

/-- A line feed at the end of the text in front keeps every column. -/
theorem Source.positionAt_append_add {front back : String}
    (hseam : front.toList = [] ∨ front.toList.getLast? = some '\n') (n : Nat) :
    (Source.ofString (front ++ back)).positionAt (n + byteLength front.toList) =
      ((Source.ofString back).positionAt n).behind front.toList := by
  have hlast : lastLine (front.toList ++ takeBytes n back.toList) =
      lastLine (takeBytes n back.toList) := by
    rcases hseam with hnil | hfeed
    · rw [hnil, List.nil_append]
    · obtain ⟨cs, hcs⟩ := List.getLast?_eq_some_iff.1 hfeed
      rw [hcs, List.append_assoc]
      exact lastLine_append_newline cs _
  rw [Source.positionAt_eq, Source.positionAt_eq]
  show Position.mk (min (n + byteLength front.toList) (byteLength (front ++ back).toList))
      ((takeBytes (n + byteLength front.toList) (front ++ back).toList).count '\n' + 1)
      ((lastLine (takeBytes (n + byteLength front.toList) (front ++ back).toList)).length + 1) =
    Position.behind front.toList (Position.mk (min n (byteLength back.toList))
      ((takeBytes n back.toList).count '\n' + 1) ((lastLine (takeBytes n back.toList)).length + 1))
  rw [String.toList_append, takeBytes_append_add, hlast, byteLength_append, List.count_append,
    Nat.add_comm (byteLength front.toList), Nat.add_min_add_right, Position.behind]
  simp only [Position.mk.injEq, and_true, true_and]
  omega

end SwitchMarkup

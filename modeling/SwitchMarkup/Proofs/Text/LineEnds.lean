import SwitchMarkup.Proofs.Source.Lines
import SwitchMarkup.Proofs.Text.Runs

/-!
# Two spellings of a line end

`crlf` spells every line feed of a text as a carriage return and a line feed. Both of them are white
space and neither is a blank, so runs of those classes are found at the same places in the two
spellings, and so are words that hold neither character. A text is `Plain` where the second spelling
changes nothing but its line ends: it has no carriage return of its own, and no backslash in front
of a line feed, which would take the carriage return with it.
-/

namespace SwitchMarkup

variable {p : Char → Bool} {c : Char} {cs ds word rest : List Char} {n : Nat}

/-- The text with each line feed spelled as a carriage return and a line feed. -/
def crlf : List Char → List Char
  | [] => []
  | c :: cs => if c = '\n' then '\r' :: '\n' :: crlf cs else c :: crlf cs

/-- The same for strings. -/
def toCrlf (text : String) : String := String.ofList (crlf text.toList)

/-- The text has no carriage return, and no line feed behind a backslash. -/
structure Plain (cs : List Char) : Prop where
  no_return : '\r' ∉ cs
  no_escape : ¬['\\', '\n'] <:+: cs

/-- An end of a plain text is plain. -/
theorem Plain.of_suffix (h : Plain cs) (hrest : rest <:+ cs) : Plain rest :=
  ⟨fun hmem => h.no_return (hrest.mem hmem),
    fun hinside => h.no_escape (hinside.trans hrest.isInfix)⟩

theorem Plain.of_cons (h : Plain (c :: cs)) : Plain cs := h.of_suffix (List.suffix_cons c cs)

theorem Plain.ne_return (h : Plain (c :: cs)) : c ≠ '\r' :=
  Ne.symm (List.ne_of_not_mem_cons h.no_return)

theorem Plain.ne_newline (h : Plain ('\\' :: c :: cs)) : c ≠ '\n' := by
  rintro rfl
  exact h.no_escape ⟨[], cs, rfl⟩

/-! ## Characters -/

@[simp] theorem crlf_nil : crlf [] = [] := rfl

theorem crlf_newline (cs : List Char) : crlf ('\n' :: cs) = '\r' :: '\n' :: crlf cs := rfl

theorem crlf_cons (h : c ≠ '\n') (cs : List Char) : crlf (c :: cs) = c :: crlf cs := if_neg h

@[simp] theorem crlf_append (cs ds : List Char) : crlf (cs ++ ds) = crlf cs ++ crlf ds := by
  induction cs with
  | nil => rfl
  | cons c cs ih =>
    by_cases hc : c = '\n'
    · subst hc
      rw [List.cons_append, crlf_newline, crlf_newline, ih]
      rfl
    · rw [List.cons_append, crlf_cons hc, crlf_cons hc, ih]
      rfl

/-- A text without line feeds stays as it is. -/
theorem crlf_eq_self (h : '\n' ∉ cs) : crlf cs = cs := by
  induction cs with
  | nil => rfl
  | cons c cs ih =>
    rw [crlf_cons (Ne.symm (List.ne_of_not_mem_cons h)), ih (List.not_mem_of_not_mem_cons h)]

@[simp] theorem crlf_eq_nil_iff : crlf cs = [] ↔ cs = [] := by
  cases cs with
  | nil => simp
  | cons c cs =>
    rw [crlf]
    split <;> simp

@[simp] theorem isEmpty_crlf (cs : List Char) : (crlf cs).isEmpty = cs.isEmpty := by
  rw [Bool.eq_iff_iff, List.isEmpty_iff, List.isEmpty_iff, crlf_eq_nil_iff]

theorem isEmpty_toCrlf (text : String) : (toCrlf text).isEmpty = text.isEmpty := by
  rw [Bool.eq_iff_iff, String.isEmpty_iff, String.isEmpty_iff, toCrlf, String.ofList_eq_empty_iff,
    crlf_eq_nil_iff, String.toList_eq_nil_iff]

/-- Only carriage returns are added. -/
theorem mem_crlf_iff (hc : c ≠ '\r') : c ∈ crlf cs ↔ c ∈ cs := by
  induction cs with
  | nil => rfl
  | cons d cs ih =>
    by_cases hd : d = '\n'
    · subst hd
      rw [crlf_newline, List.mem_cons, List.mem_cons, List.mem_cons, ih]
      exact or_iff_right hc
    · rw [crlf_cons hd, List.mem_cons, List.mem_cons, ih]

theorem contains_newline_crlf (cs : List Char) : (crlf cs).contains '\n' = cs.contains '\n' := by
  rw [Bool.eq_iff_iff, List.contains_iff_mem, List.contains_iff_mem, mem_crlf_iff (by decide)]

/-- The last character stays the last. -/
theorem getLast?_crlf (cs : List Char) : (crlf cs).getLast? = cs.getLast? := by
  rcases List.eq_nil_or_concat cs with rfl | ⟨ds, d, rfl⟩
  · rfl
  · rw [List.concat_eq_append, crlf_append, List.getLast?_concat]
    by_cases hd : d = '\n'
    · subst hd
      rw [crlf_newline, crlf_nil, List.append_cons, List.getLast?_concat]
    · rw [crlf_cons hd, crlf_nil, List.getLast?_concat]

/-! ## Words -/

/-- A word without line ends begins the one spelling exactly when it begins the other. -/
theorem prefix_crlf_iff (hfeed : '\n' ∉ word) (hreturn : '\r' ∉ word) :
    word <+: crlf cs ↔ word <+: cs := by
  induction word generalizing cs with
  | nil => simp
  | cons w word ih =>
    have hw : w ≠ '\n' := Ne.symm (List.ne_of_not_mem_cons hfeed)
    have hw' : w ≠ '\r' := Ne.symm (List.ne_of_not_mem_cons hreturn)
    cases cs with
    | nil => rfl
    | cons c cs =>
      by_cases hc : c = '\n'
      · subst hc
        rw [crlf_newline, List.cons_prefix_cons, List.cons_prefix_cons]
        exact iff_of_false (fun h => hw' h.1) fun h => hw h.1
      · rw [crlf_cons hc, List.cons_prefix_cons, List.cons_prefix_cons,
          ih (List.not_mem_of_not_mem_cons hfeed) (List.not_mem_of_not_mem_cons hreturn)]

/-- A word without line feeds is dropped from the respelt text as well. -/
theorem drop_crlf (hword : '\n' ∉ word) (h : word <+: cs) :
    (crlf cs).drop word.length = crlf (cs.drop word.length) := by
  obtain ⟨more, rfl⟩ := h
  rw [crlf_append, crlf_eq_self hword, List.drop_left, List.drop_left]

/-! ## Classes of characters -/

section Classes

variable (hp : p '\r' = p '\n')
include hp

/-- A run of a class with both line ends or neither stays one. -/
theorem isRun_crlf (h : IsRun p cs) : IsRun p (crlf cs) := by
  intro c hc
  by_cases hreturn : c = '\r'
  · subst hreturn
    by_cases hmem : '\n' ∈ cs
    · exact hp.trans (h '\n' hmem)
    · exact h '\r' (crlf_eq_self hmem ▸ hc)
  · exact h c ((mem_crlf_iff hreturn).1 hc)

theorem stops_crlf (h : Stops p cs) : Stops p (crlf cs) := by
  cases cs with
  | nil => exact stops_nil
  | cons c cs =>
    have hc := stops_cons.1 h
    by_cases hfeed : c = '\n'
    · subst hfeed
      exact stops_cons.2 (hp.trans hc)
    · rw [crlf_cons hfeed]
      exact stops_cons.2 hc

/-- The longest run of such a class is respelt. -/
theorem takeWhile_crlf (cs : List Char) : (crlf cs).takeWhile p = crlf (cs.takeWhile p) := by
  have hcut := List.takeWhile_append_dropWhile (p := p) (l := cs)
  have hrun := isRun_crlf hp (isRun_takeWhile p cs)
  have hstops := stops_crlf hp (stops_dropWhile p cs)
  calc (crlf cs).takeWhile p
      = (crlf (cs.takeWhile p) ++ crlf (cs.dropWhile p)).takeWhile p := by
        rw [← crlf_append, hcut]
    _ = crlf (cs.takeWhile p) := takeWhile_run hrun hstops

theorem dropWhile_crlf (cs : List Char) : (crlf cs).dropWhile p = crlf (cs.dropWhile p) := by
  have hcut := List.takeWhile_append_dropWhile (p := p) (l := cs)
  have hrun := isRun_crlf hp (isRun_takeWhile p cs)
  have hstops := stops_crlf hp (stops_dropWhile p cs)
  calc (crlf cs).dropWhile p
      = (crlf (cs.takeWhile p) ++ crlf (cs.dropWhile p)).dropWhile p := by
        rw [← crlf_append, hcut]
    _ = crlf (cs.dropWhile p) := dropWhile_run hrun hstops

end Classes

theorem isWhiteSpace_return : isWhiteSpace '\r' = isWhiteSpace '\n' := by decide

theorem isBlank_return : isBlank '\r' = isBlank '\n' := by decide

/-! ## Trimming -/

/-- The white space at the end is spelled in the other way, and no visible character with it. -/
theorem trimEnd_crlf (cs : List Char) : trimEnd (crlf cs) = crlf (trimEnd cs) := by
  obtain ⟨pad, hpad, hcs⟩ := exists_trimEnd_append cs
  have hend : Stops isWhiteSpace (crlf (trimEnd cs)).reverse := by
    have h := stops_reverse_trimEnd cs
    rw [Stops, List.head?_reverse] at h
    rw [Stops, List.head?_reverse, getLast?_crlf]
    exact h
  calc trimEnd (crlf cs)
      = trimEnd (crlf (trimEnd cs) ++ crlf pad) := by rw [← crlf_append, ← hcs]
    _ = trimEnd (crlf (trimEnd cs)) := trimEnd_append_run (isRun_crlf isWhiteSpace_return hpad)
    _ = crlf (trimEnd cs) := trimEnd_eq_self hend

/-- Trimming and respelling can be exchanged, for both line ends are white space. -/
theorem trim_crlf (cs : List Char) : trim (crlf cs) = crlf (trim cs) := by
  rw [trim, trimStart, dropWhile_crlf isWhiteSpace_return, trimEnd_crlf]
  rfl

/-! ## Lines and columns -/

/-- There are as many line feeds as before. -/
theorem count_newline_crlf (cs : List Char) : (crlf cs).count '\n' = cs.count '\n' := by
  induction cs with
  | nil => rfl
  | cons c cs ih =>
    by_cases hc : c = '\n'
    · subst hc
      rw [crlf_newline, List.count_cons_of_ne (by decide), List.count_cons_self,
        List.count_cons_self, ih]
    · rw [crlf_cons hc, List.count_cons_of_ne hc, List.count_cons_of_ne hc, ih]

/-- The carriage return of a line end belongs to the line before it. -/
theorem lastLine_crlf (cs : List Char) : lastLine (crlf cs) = lastLine cs := by
  induction cs with
  | nil => rfl
  | cons c cs ih =>
    by_cases hmem : '\n' ∈ c :: cs
    · have hmem' : '\n' ∈ crlf (c :: cs) := (mem_crlf_iff (by decide)).2 hmem
      by_cases hc : c = '\n'
      · subst hc
        rw [crlf_newline] at hmem' ⊢
        rw [lastLine, if_pos hmem', lastLine_newline, lastLine_newline, ih]
      · rw [crlf_cons hc] at hmem' ⊢
        rw [lastLine, if_pos hmem', lastLine, if_pos hmem, ih]
    · rw [crlf_eq_self hmem]

end SwitchMarkup

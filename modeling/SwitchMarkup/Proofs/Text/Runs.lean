import SwitchMarkup.Text.WhiteSpace

/-!
# Runs of a class of characters

Skipping a class of characters cuts a text into a run of that class and a rest that does not begin
with it, and there is only one such cut. Trimming is the same at both ends of a text: what it takes
off are runs of white space, and what it leaves is trimmed already.
-/

namespace SwitchMarkup

variable {p : Char → Bool} {c : Char} {cs ds run rest : List Char}

/-- Every character of the text is in the class. -/
def IsRun (p : Char → Bool) (cs : List Char) : Prop := ∀ c ∈ cs, p c = true

/-- The text does not begin with a character of the class: it is empty or begins with another. -/
def Stops (p : Char → Bool) (cs : List Char) : Prop := ∀ c ∈ cs.head?, p c = false

instance : Decidable (IsRun p cs) := decidable_of_iff (cs.all p = true) List.all_eq_true

@[simp] theorem isRun_nil : IsRun p [] := by simp [IsRun]

@[simp] theorem isRun_cons : IsRun p (c :: cs) ↔ p c = true ∧ IsRun p cs := by simp [IsRun]

@[simp] theorem isRun_append : IsRun p (cs ++ ds) ↔ IsRun p cs ∧ IsRun p ds := by
  simp [IsRun, or_imp, forall_and]

@[simp] theorem stops_nil : Stops p [] := by simp [Stops]

@[simp] theorem stops_cons : Stops p (c :: cs) ↔ p c = false := by simp [Stops]

theorem isRun_replicate (h : p c = true) (n : Nat) : IsRun p (List.replicate n c) := by
  intro d hd
  rw [(List.mem_replicate.1 hd).2]
  exact h

/-- A run of a class is one of every larger class. -/
theorem IsRun.mono {q : Char → Bool} (h : IsRun p cs) (hpq : ∀ c, p c = true → q c = true) :
    IsRun q cs :=
  fun c hc => hpq c (h c hc)

/-- No blank is a line feed. -/
theorem newline_not_mem_of_blank (h : IsRun isBlank cs) : '\n' ∉ cs := by
  intro hmem
  cases h '\n' hmem

/-! ## The one cut -/

theorem isRun_takeWhile (p : Char → Bool) (cs : List Char) : IsRun p (cs.takeWhile p) :=
  List.all_eq_true.1 List.all_takeWhile

theorem stops_dropWhile (p : Char → Bool) (cs : List Char) : Stops p (cs.dropWhile p) := by
  intro c hc
  have h := List.head?_dropWhile_not p cs
  rw [Option.mem_def.1 hc] at h
  simpa using h

/-- The longest run in front is all of it if something stops it. -/
theorem takeWhile_run (h : IsRun p run) (hrest : Stops p rest) :
    (run ++ rest).takeWhile p = run := by
  rw [List.takeWhile_append_of_pos h]
  cases rest with
  | nil => simp
  | cons c rest => simp [stops_cons.1 hrest]

theorem dropWhile_run (h : IsRun p run) (hrest : Stops p rest) :
    (run ++ rest).dropWhile p = rest := by
  rw [List.dropWhile_append_of_pos h]
  cases rest with
  | nil => simp
  | cons c rest => simp [stops_cons.1 hrest]

/-- A text is cut in only one way into a run and a rest that does not begin with the class. -/
theorem run_append_inj {run' rest' : List Char} (h : run ++ rest = run' ++ rest')
    (hrun : IsRun p run) (hrest : Stops p rest) (hrun' : IsRun p run') (hrest' : Stops p rest') :
    run = run' ∧ rest = rest' := by
  refine ⟨?_, ?_⟩
  · rw [← takeWhile_run hrun hrest, h, takeWhile_run hrun' hrest']
  · rw [← dropWhile_run hrun hrest, h, dropWhile_run hrun' hrest']

theorem takeWhile_eq_nil (h : Stops p cs) : cs.takeWhile p = [] := takeWhile_run isRun_nil h

theorem dropWhile_eq_self (h : Stops p cs) : cs.dropWhile p = cs := dropWhile_run isRun_nil h

/-- Everything is dropped just from a run. -/
theorem dropWhile_eq_nil_iff : cs.dropWhile p = [] ↔ IsRun p cs := by
  constructor
  · intro h
    have hcut := List.takeWhile_append_dropWhile (p := p) (l := cs)
    rw [h, List.append_nil] at hcut
    rw [← hcut]
    exact isRun_takeWhile p cs
  · intro h
    have hdrop := dropWhile_run h stops_nil
    rw [List.append_nil] at hdrop
    exact hdrop

/-! ## Trimming -/

theorem trimStart_eq_self (h : Stops isWhiteSpace cs) : trimStart cs = cs := dropWhile_eq_self h

theorem takeWhile_append_trimStart (cs : List Char) :
    cs.takeWhile isWhiteSpace ++ trimStart cs = cs :=
  List.takeWhile_append_dropWhile

/-- White space at the end is trimmed away. -/
theorem trimEnd_append_run (h : IsRun isWhiteSpace ds) : trimEnd (cs ++ ds) = trimEnd cs := by
  have hr : IsRun isWhiteSpace ds.reverse := fun c hc => h c (List.mem_reverse.1 hc)
  rw [trimEnd, trimEnd, List.reverse_append, List.dropWhile_append_of_pos hr]

/-- A text that ends visibly has a trimmed end. -/
theorem trimEnd_eq_self (h : Stops isWhiteSpace cs.reverse) : trimEnd cs = cs := by
  rw [trimEnd, dropWhile_eq_self h, List.reverse_reverse]

/-- Trimming the end of a text keeps a beginning that does not end in white space. -/
theorem prefix_trimEnd (hds : Stops isWhiteSpace ds.reverse) (h : ds <+: cs) : ds <+: trimEnd cs := by
  obtain ⟨more, rfl⟩ := h
  rw [trimEnd, List.reverse_append, List.dropWhile_append]
  split
  · have hkept : (ds.reverse.dropWhile isWhiteSpace).reverse = ds := by
      rw [dropWhile_eq_self hds, List.reverse_reverse]
    exact hkept.symm ▸ List.prefix_rfl
  · rw [List.reverse_append, List.reverse_reverse]
    exact List.prefix_append ..

/-- What trimming takes off the end is white space. -/
theorem exists_trimEnd_append (cs : List Char) :
    ∃ pad, IsRun isWhiteSpace pad ∧ cs = trimEnd cs ++ pad := by
  refine ⟨(cs.reverse.takeWhile isWhiteSpace).reverse, ?_, ?_⟩
  · intro c hc
    exact isRun_takeWhile isWhiteSpace cs.reverse c (List.mem_reverse.1 hc)
  · rw [trimEnd, ← List.reverse_append, List.takeWhile_append_dropWhile, List.reverse_reverse]

/-- A trimmed end is visible. -/
theorem stops_reverse_trimEnd (cs : List Char) : Stops isWhiteSpace (trimEnd cs).reverse := by
  rw [trimEnd, List.reverse_reverse]
  exact stops_dropWhile isWhiteSpace cs.reverse

theorem Stops.append_cons (h : Stops p cs) (hc : p c = false) (ds : List Char) :
    Stops p (cs ++ c :: ds) := by
  cases cs with
  | nil => exact stops_cons.2 hc
  | cons d cs => exact stops_cons.2 (stops_cons.1 h)

/-- A prefix that is not empty decides what a text begins with. -/
theorem Stops.of_append (h : Stops p (cs ++ ds)) : Stops p cs := by
  cases cs with
  | nil => exact stops_nil
  | cons c cs => exact stops_cons.2 (stops_cons.1 h)

theorem trim_nil : trim [] = [] := rfl

theorem stops_trim (cs : List Char) : Stops isWhiteSpace (trim cs) := by
  obtain ⟨pad, _, hpad⟩ := exists_trimEnd_append (trimStart cs)
  have h := stops_dropWhile isWhiteSpace cs
  rw [← trimStart, hpad] at h
  exact h.of_append

/-- Trimming takes a run of white space off each end. -/
theorem exists_trim_append (cs : List Char) :
    ∃ pad, IsRun isWhiteSpace pad ∧
      cs = cs.takeWhile isWhiteSpace ++ (trim cs ++ pad) ∧ trimStart cs = trim cs ++ pad := by
  obtain ⟨pad, hpad, h⟩ := exists_trimEnd_append (trimStart cs)
  refine ⟨pad, hpad, ?_, h⟩
  rw [trim, ← h, takeWhile_append_trimStart]

/-- A text is trimmed exactly when it neither begins nor ends with white space. -/
theorem trim_eq_self_iff :
    trim cs = cs ↔ Stops isWhiteSpace cs ∧ Stops isWhiteSpace cs.reverse := by
  constructor
  · intro h
    refine ⟨h ▸ stops_trim cs, ?_⟩
    rw [← h, trim]
    exact stops_reverse_trimEnd (trimStart cs)
  · rintro ⟨hstart, hend⟩
    rw [trim, trimStart_eq_self hstart, trimEnd_eq_self hend]

/-- A trimmed text is trimmed. -/
theorem trim_trim (cs : List Char) : trim (trim cs) = trim cs :=
  trim_eq_self_iff.2 ⟨stops_trim cs, stops_reverse_trimEnd (trimStart cs)⟩

/-- White space around a trimmed text is what trimming takes off. -/
theorem trim_pad {lead pad : List Char} (hlead : IsRun isWhiteSpace lead)
    (hpad : IsRun isWhiteSpace pad) (h : trim cs = cs) : trim (lead ++ (cs ++ pad)) = cs := by
  obtain ⟨hstart, hend⟩ := trim_eq_self_iff.1 h
  cases cs with
  | nil =>
    rw [trim, trimStart, List.nil_append, ← List.append_nil (lead ++ pad),
      dropWhile_run (isRun_append.2 ⟨hlead, hpad⟩) stops_nil]
    rfl
  | cons c cs =>
    have hc : Stops isWhiteSpace (c :: cs ++ pad) := stops_cons.2 (stops_cons.1 hstart)
    rw [trim, trimStart, dropWhile_run hlead hc, trimEnd_append_run hpad, trimEnd_eq_self hend]

/-- Just a run of white space trims to nothing. -/
theorem trim_eq_nil_iff : trim cs = [] ↔ IsRun isWhiteSpace cs := by
  constructor
  · intro h
    obtain ⟨pad, hpad, hcs, -⟩ := exists_trim_append cs
    rw [hcs, h]
    exact isRun_append.2 ⟨isRun_takeWhile isWhiteSpace cs, hpad⟩
  · intro h
    have := trim_pad h isRun_nil trim_nil
    rwa [List.append_nil, List.append_nil] at this

theorem trim_eq_trimEnd (h : Stops isWhiteSpace cs) : trim cs = trimEnd cs := by
  rw [trim, trimStart_eq_self h]

end SwitchMarkup

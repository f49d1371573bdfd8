import SwitchMarkup.Proofs.Expression.Syntax
import SwitchMarkup.Proofs.Text.Runs

/-!
# Items do not look ahead

An item is over when its last character is read, so what stands behind it neither changes where it
ends nor has to be there at all. A text that is nothing but items of a kind, one that the kind
*covers*, is therefore read in full wherever it stands, and the run of items that a reader takes is
covered when cut out of its text. Main statements: `covers_iff_isItems` and `isItems_maximal`.
-/

namespace SwitchMarkup.Items

variable {kind : Kind} {c close : Char} {cs ds rest run outer : List Char}

/-- The text consists of items of the kind and nothing else. -/
def Covers (kind : Kind) (cs : List Char) : Prop := afterItems kind cs = []

/-- No item of the kind begins the text. -/
def Stuck (kind : Kind) (cs : List Char) : Prop := afterItems kind cs = cs

/-! ## One item -/

theorem afterItem?_append (h : afterItem? kind c cs = some rest) (ds : List Char) :
    afterItem? kind c (cs ++ ds) = some (rest ++ ds) := by
  obtain ⟨body, hitem, rfl⟩ := exists_isItem h
  obtain ⟨c', body', heq, hafter⟩ := hitem.exists_afterItem?
  cases heq
  rw [List.append_assoc]
  exact hafter (rest ++ ds)

/-- An item is whole without the text behind it, and one of several characters ends with a
delimiter. -/
theorem exists_of_afterItem? (h : afterItem? kind c cs = some rest) :
    ∃ body, cs = body ++ rest ∧ afterItem? kind c body = some [] ∧
      (body = [] ∨ ∃ lead close, isDelimiter close = true ∧ body = lead ++ [close]) := by
  obtain ⟨body, hitem, rfl⟩ := exists_isItem h
  obtain ⟨c', body', heq, hafter⟩ := hitem.exists_afterItem?
  cases heq
  have hwhole := hafter []
  rw [List.append_nil] at hwhole
  exact ⟨body, rfl, hwhole, hitem.eq_nil_or_ends⟩

/-! ## Runs of items -/

theorem afterItems_cons_some (h : afterItem? kind c cs = some rest) :
    afterItems kind (c :: cs) = afterItems kind rest := by
  rw [afterItems]
  split
  · next rest' hrest => cases h.symm.trans hrest; rfl
  · next hno => cases h.symm.trans hno

/-- Items stop in front of a character that begins none. -/
theorem stuck_cons_iff : Stuck kind (c :: cs) ↔ afterItem? kind c cs = none := by
  constructor
  · intro h
    cases hitem : afterItem? kind c cs with
    | none => rfl
    | some rest =>
      -- A run that took an item is shorter than the text.
      have hlt := length_afterItem?_lt hitem
      have hle := (afterItems_suffix kind rest).length_le
      rw [Stuck, afterItems_cons_some hitem] at h
      rw [h] at hle
      omega
  · intro h
    rw [Stuck, afterItems]
    split
    · next rest hrest => cases h.symm.trans hrest
    · rfl

@[simp] theorem covers_nil : Covers kind [] := by rw [Covers, afterItems]

@[simp] theorem stuck_nil : Stuck kind [] := by rw [Stuck, afterItems]

/-- Items fill a text just where they fill what follows its first item. -/
theorem covers_cons_iff :
    Covers kind (c :: cs) ↔ ∃ rest, afterItem? kind c cs = some rest ∧ Covers kind rest := by
  constructor
  · intro h
    cases hitem : afterItem? kind c cs with
    | none =>
      rw [Covers, stuck_cons_iff.2 hitem] at h
      cases h
    | some rest =>
      rw [Covers, afterItems_cons_some hitem] at h
      exact ⟨rest, rfl, h⟩
  · rintro ⟨rest, hitem, h⟩
    rw [Covers, afterItems_cons_some hitem]
    exact h

/-- A covered text is read in full wherever it stands. -/
theorem Covers.afterItems_append (h : Covers kind run) (ds : List Char) :
    afterItems kind (run ++ ds) = afterItems kind ds := by
  rw [Covers] at h
  fun_induction afterItems kind run with
  | case1 => rfl
  | case2 c cs rest hitem hle ih =>
    rw [List.cons_append, afterItems_cons_some (afterItem?_append hitem ds)]
    exact ih h
  | case3 => cases h

theorem Covers.append (hcs : Covers kind cs) (hds : Covers kind ds) : Covers kind (cs ++ ds) := by
  rw [Covers, hcs.afterItems_append, hds]

/-- A covered text in front of one that no item begins is just what a reader takes. -/
theorem Covers.afterItems_append_stuck (h : Covers kind run) (hrest : Stuck kind rest) :
    afterItems kind (run ++ rest) = rest := by
  rw [h.afterItems_append, hrest]

/-- Only one front of a text is filled by items and followed by what begins none. -/
theorem covers_append_inj {run' rest' : List Char} (h : run ++ rest = run' ++ rest')
    (hrun : Covers kind run) (hrest : Stuck kind rest) (hrun' : Covers kind run')
    (hrest' : Stuck kind rest') : run = run' ∧ rest = rest' := by
  have heq : rest = rest' := by
    rw [← hrun.afterItems_append_stuck hrest, h, hrun'.afterItems_append_stuck hrest']
  subst heq
  exact ⟨List.append_cancel_right h, rfl⟩

/-- What a reader takes is covered on its own, and no item begins what it leaves. -/
theorem exists_covers_append (kind : Kind) (cs : List Char) :
    ∃ run, cs = run ++ afterItems kind cs ∧ Covers kind run ∧ Stuck kind (afterItems kind cs) := by
  fun_induction afterItems kind cs with
  | case1 => exact ⟨[], rfl, covers_nil, stuck_nil⟩
  | case2 c cs rest hitem hle ih =>
    obtain ⟨run, hrun, hcovers, hstuck⟩ := ih
    obtain ⟨body, rfl, hbody, -⟩ := exists_of_afterItem? hitem
    refine ⟨c :: (body ++ run), by rw [List.cons_append, List.append_assoc, ← hrun], ?_, hstuck⟩
    refine covers_cons_iff.2 ⟨run, ?_, hcovers⟩
    simpa using afterItem?_append hbody run
  | case3 c cs hnone => exact ⟨[], rfl, covers_nil, stuck_cons_iff.2 hnone⟩

theorem IsItems.covers : ∀ {cs}, IsItems kind cs → Covers kind cs
  | _, .nil => covers_nil
  | _, .cons hitem hcs => by
    obtain ⟨c, body, rfl, hafter⟩ := hitem.exists_afterItem?
    exact covers_cons_iff.2 ⟨_, hafter _, hcs.covers⟩

/-- A text that the readers take in full consists of items, by induction along the readers. -/
theorem Covers.isItems (h : Covers kind cs) : IsItems kind cs := by
  rw [Covers] at h
  fun_induction afterItems kind cs with
  | case1 => exact .nil
  | case2 c cs rest hitem hle ih =>
    obtain ⟨body, hbody, rfl⟩ := exists_isItem hitem
    rw [← List.cons_append]
    exact .cons hbody (ih h)
  | case3 => cases h

/-- The readers take a text in full exactly when it is made of items. -/
theorem covers_iff_isItems : Covers kind cs ↔ IsItems kind cs :=
  ⟨Covers.isItems, IsItems.covers⟩

/-- The items in front of a place where none begins are the longest run of items there is. -/
theorem isItems_maximal (hrun : Covers kind run) (hrest : Stuck kind rest) :
    ∀ longer, IsItems kind longer → longer <+: run ++ rest → longer <+: run := by
  rintro longer hlonger ⟨more, hmore⟩
  have hafter : afterItems kind more = rest := by
    rw [← hlonger.covers.afterItems_append, hmore, hrun.afterItems_append_stuck hrest]
  have hlength := (hafter ▸ afterItems_suffix kind more).length_le
  have hsum := congrArg List.length hmore
  rw [List.length_append, List.length_append] at hsum
  refine List.prefix_of_prefix_length_le ⟨more, hmore⟩ (List.prefix_append ..) ?_
  omega

/-! ## Inside of brackets -/

/-- What one character does to the brackets that are open. -/
theorem afterGroups?_cons :
    afterGroups? (close :: outer) (c :: cs) =
      if c = close then afterGroups? outer cs
      else match closing? c with
        | some inner => afterGroups? (inner :: close :: outer) cs
        | none =>
          if isQuote c then (afterLiteral? c cs).bind (afterGroups? (close :: outer))
          else if isDelimiter c then none
          else afterGroups? (close :: outer) cs := by
  rw [afterGroups?]
  by_cases hc : c = close
  · rw [if_pos hc, if_pos hc]
  · rw [if_neg hc, if_neg hc]
    cases closing? c with
    | some inner => rfl
    | none =>
      by_cases hquote : isQuote c = true
      · simp only [if_pos hquote]
        split
        next rest hrest => rw [hrest]; rfl
        next hnone => rw [hnone]; rfl
      · simp only [if_neg hquote]

/-- Brackets that stand open around others are closed behind them. -/
theorem afterGroups?_append (pending outer cs : List Char) :
    afterGroups? (pending ++ outer) cs = (afterGroups? pending cs).bind (afterGroups? outer) := by
  fun_induction afterGroups? pending cs with
  | case1 => rfl
  | case2 => rw [List.cons_append, afterGroups?, Option.bind_none]
  | case3 pending close cs ih =>
    rw [List.cons_append, afterGroups?_cons, if_pos rfl, ih]
  | case4 close pending c cs hne inner hinner ih =>
    rw [List.cons_append, afterGroups?_cons, if_neg hne, hinner]
    exact ih
  | case5 close pending c cs hne hnone hquote rest hrest hle ih =>
    rw [List.cons_append, afterGroups?_cons, if_neg hne, hnone, hrest]
    rw [List.cons_append] at ih
    simp only [hquote, if_true, Option.bind_some, ih]
  | case6 close pending c cs hne hnone hquote hrest =>
    rw [List.cons_append, afterGroups?_cons, if_neg hne, hnone, hrest]
    simp only [hquote, if_true, Option.bind_none]
  | case7 close pending c cs hne hnone hquote hdelimiter =>
    rw [List.cons_append, afterGroups?_cons, if_neg hne, hnone]
    simp only [hquote, hdelimiter, Bool.false_eq_true, if_true, if_false, Option.bind_none]
  | case8 close pending c cs hne hnone hquote hdelimiter ih =>
    rw [List.cons_append, afterGroups?_cons, if_neg hne, hnone]
    simp only [hquote, hdelimiter]
    exact ih

/-- Inside of an open bracket one item after the other is passed over, up to the bracket that closes
it. -/
theorem afterGroups?_eq_bind (hne : c ≠ close) (outer cs : List Char) :
    afterGroups? (close :: outer) (c :: cs) =
      (afterItem? .braced c cs).bind (afterGroups? (close :: outer)) := by
  rw [afterGroups?_cons, if_neg hne, afterItem?]
  cases hclosing : closing? c with
  | some inner =>
    have hquote := (not_isQuote_of_closing? hclosing).1
    simp only [hquote, Bool.false_eq_true, if_false, Kind.admitsGroup, if_true]
    exact afterGroups?_append [inner] (close :: outer) cs
  | none =>
    by_cases hquote : isQuote c = true
    · simp only [hquote, if_true]
    · by_cases hdelimiter : isDelimiter c = true
      · simp [hquote, hdelimiter, Kind.admitsPlain]
      · simp [hquote, hdelimiter, Kind.admitsPlain]

/-- How the items of a text are read on from its first character. -/
structure Advances (kind : Kind) (c : Char) (cs : List Char) : Prop where
  /-- An item takes at least one character. -/
  item : ∀ rest, afterItem? kind c cs = some rest → rest.length < (c :: cs).length
  /-- A run of items is an item and the run behind it, or ends where none begins. -/
  run : afterItems kind (c :: cs) = ((afterItem? kind c cs).map (afterItems kind)).getD (c :: cs)
  /-- The inside of a bracket is one item after the other, up to the closing bracket. -/
  group : ∀ close outer, c ≠ close → afterGroups? (close :: outer) (c :: cs) =
    (afterItem? .braced c cs).bind (afterGroups? (close :: outer))

/-- The readers go through a text item by item, whatever character it begins with. -/
theorem advances (kind : Kind) (c : Char) (cs : List Char) : Advances kind c cs := by
  refine ⟨fun rest => length_afterItem?_lt, ?_, fun close outer hne =>
    afterGroups?_eq_bind hne outer cs⟩
  cases hitem : afterItem? kind c cs with
  | none =>
    have hstuck : afterItems kind (c :: cs) = c :: cs := stuck_cons_iff.2 hitem
    rw [hstuck, Option.map_none, Option.getD_none]
  | some rest => rw [afterItems_cons_some hitem, Option.map_some, Option.getD_some]

/-! ## White space around items -/

theorem not_isDelimiter_of_isWhiteSpace (h : isWhiteSpace c = true) : isDelimiter c = false := by
  refine Bool.eq_false_iff.2 fun hdelimiter => ?_
  have hnone : IsRun (fun d => !isWhiteSpace d) delimiters := by decide
  have hvisible : (!isWhiteSpace c) = true := hnone c (isDelimiter_iff.1 hdelimiter)
  rw [h] at hvisible
  cases hvisible

theorem Covers.of_cons_white (h : Covers kind (c :: cs)) (hc : isWhiteSpace c = true) :
    Covers kind cs := by
  obtain ⟨rest, hrest, hcovers⟩ := covers_cons_iff.1 h
  rw [afterItem?_plain (not_isDelimiter_of_isWhiteSpace hc)] at hrest
  split at hrest
  · cases hrest; exact hcovers
  · cases hrest

theorem Covers.of_white_append (h : Covers kind (cs ++ ds)) (hcs : IsRun isWhiteSpace cs) :
    Covers kind ds := by
  induction cs with
  | nil => exact h
  | cons c cs ih => exact ih (h.of_cons_white (isRun_cons.1 hcs).1) (isRun_cons.1 hcs).2

/-- White space at the end of a covered text belongs to no longer item, since those end with a
delimiter. -/
theorem Covers.of_append_white (h : Covers kind (cs ++ ds)) (hds : IsRun isWhiteSpace ds) :
    Covers kind cs := by
  obtain ⟨run, hrun, hcovers, hstuck⟩ := exists_covers_append kind cs
  generalize afterItems kind cs = stuck at hrun hstuck
  subst hrun
  cases stuck with
  | nil => simpa using hcovers
  | cons d stuck =>
    rw [Covers, List.append_assoc, hcovers.afterItems_append] at h
    obtain ⟨rest, hitem, -⟩ := covers_cons_iff.1 h
    obtain ⟨body, hbody, hwhole, hend⟩ := exists_of_afterItem? hitem
    rcases List.append_eq_append_iff.1 hbody with ⟨pad, hpad, hds'⟩ | ⟨more, hmore, -⟩
    · by_cases hnil : pad = []
      · rw [hnil, List.append_nil] at hpad
        rw [hpad, stuck_cons_iff.1 hstuck] at hwhole
        cases hwhole
      · -- The item would end inside the white space.
        rcases hend with rfl | ⟨lead, close, hclose, rfl⟩
        · exact absurd (List.append_eq_nil_iff.1 hpad.symm).2 hnil
        · have hlast : pad.getLast? = some close := by
            have h := congrArg List.getLast? hpad
            rw [List.getLast?_concat, List.getLast?_append, List.getLast?_eq_some_getLast hnil] at h
            rw [List.getLast?_eq_some_getLast hnil]
            exact h.symm
          have hwhite := hds close (hds' ▸ List.mem_append_left _ (List.mem_of_getLast? hlast))
          rw [not_isDelimiter_of_isWhiteSpace hwhite] at hclose
          cases hclose
    · have hlonger := afterItem?_append hwhole more
      rw [← hmore, stuck_cons_iff.1 hstuck] at hlonger
      cases hlonger

/-- White space in front of a covered text is made of items by itself. -/
theorem Covers.white_prefix (h : Covers kind (cs ++ ds)) (hcs : IsRun isWhiteSpace cs) :
    Covers kind cs := by
  induction cs with
  | nil => exact covers_nil
  | cons c cs ih =>
    obtain ⟨hc, hcs⟩ := isRun_cons.1 hcs
    obtain ⟨rest, hrest, -⟩ := covers_cons_iff.1 h
    rw [afterItem?_plain (not_isDelimiter_of_isWhiteSpace hc)] at hrest
    split at hrest
    next hplain =>
      refine covers_cons_iff.2 ⟨cs, ?_, ih (h.of_cons_white hc) hcs⟩
      rw [afterItem?_plain (not_isDelimiter_of_isWhiteSpace hc), if_pos hplain]
    next => cases hrest

/-- What stands behind the beginning of a covered text is covered if the beginning is. -/
theorem Covers.of_append (h : Covers kind (cs ++ ds)) (hcs : Covers kind cs) : Covers kind ds := by
  rw [Covers, hcs.afterItems_append] at h
  exact h

/-- Trimming a covered text leaves one. -/
theorem Covers.trim (h : Covers kind cs) : Covers kind (trim cs) := by
  obtain ⟨pad, hpad, hcs, -⟩ := exists_trim_append cs
  rw [hcs] at h
  exact (h.of_white_append (isRun_takeWhile _ _)).of_append_white hpad

/-- White space is an item of a tag or a list by itself, if it is no line break. -/
theorem Kind.admitsPlain_of_isWhiteSpace (hkind : kind ≠ .braced) (hc : isWhiteSpace c = true) :
    kind.admitsPlain c = !isLineBreak c := by
  have hdelimiter : c ∉ delimiters := by
    rw [← isDelimiter_iff, not_isDelimiter_of_isWhiteSpace hc]
    exact Bool.false_ne_true
  have hcolon : c ≠ ':' := by
    rintro rfl
    exact absurd hc (by decide)
  rw [Bool.eq_iff_iff, Kind.admitsPlain_iff]
  cases kind with
  | braced => exact absurd rfl hkind
  | tag => simp [Kind.barredPlain, isLineBreak, hdelimiter]
  | list => simp [Kind.barredPlain, isLineBreak, hdelimiter, hcolon]

/-- White space is filled by items of a header just where it holds no line break. -/
theorem covers_white_iff (hkind : kind ≠ .braced) (hcs : IsRun isWhiteSpace cs) :
    Covers kind cs ↔ IsRun (fun c => !isLineBreak c) cs := by
  induction cs with
  | nil => exact iff_of_true covers_nil isRun_nil
  | cons c cs ih =>
    obtain ⟨hc, hcs⟩ := isRun_cons.1 hcs
    rw [covers_cons_iff, isRun_cons, ← ih hcs, ← Kind.admitsPlain_of_isWhiteSpace hkind hc,
      afterItem?_plain (not_isDelimiter_of_isWhiteSpace hc)]
    by_cases hplain : kind.admitsPlain c = true
    · simp [hplain]
    · simp [hplain]

/-- The white space between the items of a tag or a list does not go over the end of a line. -/
theorem Covers.newline_not_mem (h : Covers kind cs) (hkind : kind ≠ .braced)
    (hcs : IsRun isWhiteSpace cs) : '\n' ∉ cs :=
  fun hmem => absurd ((covers_white_iff hkind hcs).1 h _ hmem) (by decide)

/-! ## What surrounds the items of a header -/

theorem covers_space : Covers kind [' '] := by
  refine covers_cons_iff.2 ⟨[], ?_, covers_nil⟩
  cases kind <;> rfl

/-- In braces, any white space may stand between items. -/
theorem covers_white (h : IsRun isWhiteSpace cs) : Covers .braced cs := by
  induction cs with
  | nil => exact covers_nil
  | cons c cs ih =>
    obtain ⟨hc, hcs⟩ := isRun_cons.1 h
    have hplain := not_isDelimiter_of_isWhiteSpace hc
    refine covers_cons_iff.2 ⟨cs, ?_, ih hcs⟩
    rw [afterItem?_plain hplain, if_pos]
    rw [Kind.admitsPlain, hplain]
    rfl

theorem stuck_braced_close : Stuck .braced ('\x7d' :: cs) := stuck_cons_iff.2 rfl

theorem stuck_tag_open : Stuck .tag ('\x7b' :: cs) := stuck_cons_iff.2 rfl

theorem stuck_list_colon : Stuck .list (':' :: cs) := stuck_cons_iff.2 rfl

end SwitchMarkup.Items

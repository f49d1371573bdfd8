import SwitchMarkup.Proofs.Expression.Items
import SwitchMarkup.Proofs.Text.LineEnds

/-!
# Items in the two spellings of line ends

Where a text has neither carriage returns nor backslashes in front of line feeds, each reader of
items stops at the same place in both spellings of its line ends. A line end ends a literal on one
line and a tag or a list outside of brackets with its first character, whichever that is; raw
literals, groups and the inside of braces hold both characters of it. Main statement:
`afterItems_crlf`.
-/

namespace SwitchMarkup.Items

variable {kind : Kind} {c quote close : Char} {cs rest pending outer : List Char}

/-! ## Literals -/

/-- A quote is not a line break. -/
theorem ne_newline_of_isQuote (h : isQuote quote = true) : quote ≠ '\n' ∧ quote ≠ '\r' := by
  constructor
  · rintro rfl
    exact absurd h (by decide)
  · rintro rfl
    exact absurd h (by decide)

/-- A quoted literal ends at the same quote when the lines around it end otherwise. -/
theorem afterQuoted?_crlf (hquote : isQuote quote = true) (hcs : Plain cs) :
    afterQuoted? quote (crlf cs) = (afterQuoted? quote cs).map crlf := by
  obtain ⟨hfeed, hreturn⟩ := ne_newline_of_isQuote hquote
  fun_induction afterQuoted? quote cs with
  | case1 => rfl
  | case2 c cs ih =>
    rw [crlf_cons (by decide), crlf_cons hcs.ne_newline, afterQuoted?_escape]
    exact ih hcs.of_cons.of_cons
  | case3 cs =>
    rw [crlf_cons hfeed, afterQuoted?_cons (ne_backslash_of_isQuote hquote), if_pos rfl]
    rfl
  | case4 c cs _ hne hbreak =>
    obtain rfl : c = '\n' := hbreak.resolve_right hcs.ne_return
    rw [crlf_newline, afterQuoted?_cons (by decide), if_neg (Ne.symm hreturn), if_pos (.inr rfl)]
    rfl
  | case5 c cs hescape hne hbreak ih =>
    rw [crlf_cons fun hc => hbreak (.inl hc)]
    by_cases hc : c = '\\'
    · -- A backslash that takes nothing with it stands at the end of the text.
      subst hc
      cases cs with
      | nil =>
        rw [crlf_nil]
        simp [afterQuoted?, hne]
      | cons d ds => exact (hescape d ds rfl rfl).elim
    · rw [afterQuoted?_cons hc, if_neg hne, if_neg hbreak]
      exact ih hcs.of_cons

/-- A raw literal ends at the same quote, also if the line ends in it are respelt. -/
theorem afterRaw?_crlf (cs : List Char) : afterRaw? (crlf cs) = (afterRaw? cs).map crlf := by
  induction cs with
  | nil => rfl
  | cons c cs ih =>
    by_cases hc : c = '\n'
    · subst hc
      rw [crlf_newline, afterRaw?, if_neg (by decide), afterRaw?, if_neg (by decide), afterRaw?,
        if_neg (by decide), ih]
    · rw [crlf_cons hc, afterRaw?, afterRaw?, ih]
      split
      · rfl
      · rfl

/-- A literal of any kind ends at the same quote when line ends are respelt. -/
theorem afterLiteral?_crlf (hquote : isQuote quote = true) (hcs : Plain cs) :
    afterLiteral? quote (crlf cs) = (afterLiteral? quote cs).map crlf := by
  rw [afterLiteral?, afterLiteral?]
  split
  · exact afterRaw?_crlf cs
  · exact afterQuoted?_crlf hquote hcs

/-! ## Groups -/

theorem afterGroups?_plain (hc : c ≠ close) (hplain : isDelimiter c = false) :
    afterGroups? (close :: outer) (c :: cs) = afterGroups? (close :: outer) cs := by
  obtain ⟨hquote, hnone⟩ := opens_nothing hplain
  rw [afterGroups?_cons, if_neg hc]
  simp [hnone, hquote, hplain]

/-- Groups are closed at the same bracket when line ends are respelt. The induction is along the
reader. -/
theorem afterGroups?_crlf (hpending : IsRun isDelimiter pending) (hcs : Plain cs) :
    afterGroups? pending (crlf cs) = (afterGroups? pending cs).map crlf := by
  have hline : ∀ {close : Char}, isDelimiter close = true → '\n' ≠ close ∧ '\r' ≠ close := by
    intro close hclose
    constructor
    · rintro rfl
      exact absurd hclose (by decide)
    · rintro rfl
      exact absurd hclose (by decide)
  fun_induction afterGroups? pending cs with
  | case1 cs => rw [afterGroups?]; rfl
  | case2 => rw [crlf_nil, afterGroups?]; rfl
  | case3 outer close cs ih =>
    obtain ⟨hclose, houter⟩ := isRun_cons.1 hpending
    rw [crlf_cons (hline hclose).1.symm, afterGroups?_cons, if_pos rfl]
    exact ih houter hcs.of_cons
  | case4 close outer c cs hne inner hinner ih =>
    obtain ⟨hopens, hcloses⟩ := isDelimiter_of_closing? hinner
    rw [crlf_cons (hline hopens).1.symm, afterGroups?_cons, if_neg hne]
    simp only [hinner]
    exact ih (isRun_cons.2 ⟨hcloses, hpending⟩) hcs.of_cons
  | case5 close outer c cs hne hnone hquote rest hrest _ ih =>
    have hliteral := afterLiteral?_crlf hquote hcs.of_cons
    rw [hrest, Option.map_some] at hliteral
    rw [crlf_cons (ne_newline_of_isQuote hquote).1, afterGroups?_cons, if_neg hne]
    simp only [hnone, hquote, hliteral, if_true, Option.bind_some]
    exact ih hpending (hcs.of_cons.of_suffix (afterLiteral?_suffix hrest))
  | case6 close outer c cs hne hnone hquote hunclosed =>
    have hliteral := afterLiteral?_crlf hquote hcs.of_cons
    rw [hunclosed, Option.map_none] at hliteral
    rw [crlf_cons (ne_newline_of_isQuote hquote).1, afterGroups?_cons, if_neg hne]
    simp only [hnone, hquote, hliteral, if_true, Option.bind_none, Option.map_none]
  | case7 close outer c cs hne hnone hquote hdelimiter =>
    rw [crlf_cons (hline hdelimiter).1.symm, afterGroups?_cons, if_neg hne]
    simp only [hnone, hquote, hdelimiter, if_true, Bool.false_eq_true, if_false, Option.map_none]
  | case8 close outer c cs hne hnone hquote hplain ih =>
    have hc : isDelimiter c = false := Bool.eq_false_iff.2 hplain
    by_cases hfeed : c = '\n'
    · subst hfeed
      -- a line feed becomes two characters, neither of which closes or opens anything
      have hreturn := (hline (isRun_cons.1 hpending).1).2
      rw [crlf_newline, afterGroups?_plain hreturn (by decide), afterGroups?_plain hne hc]
      exact ih hpending hcs.of_cons
    · rw [crlf_cons hfeed, afterGroups?_plain hne hc]
      exact ih hpending hcs.of_cons

/-! ## Items -/

/-- An item ends at the same place when line ends are respelt. -/
theorem afterItem?_crlf (hcs : Plain cs) :
    afterItem? kind c (crlf cs) = (afterItem? kind c cs).map crlf := by
  rw [afterItem?, afterItem?]
  split
  next hquote => exact afterLiteral?_crlf hquote hcs
  next =>
    split
    next close hclose =>
      split
      · exact afterGroups?_crlf (isRun_cons.2 ⟨(isDelimiter_of_closing? hclose).2, isRun_nil⟩) hcs
      · rfl
    next =>
      split
      · rfl
      · rfl

/-- A run of items stops at the same place when line ends are respelt. -/
theorem afterItems_crlf (hcs : Plain cs) :
    afterItems kind (crlf cs) = crlf (afterItems kind cs) := by
  fun_induction afterItems kind cs with
  | case1 => exact covers_nil
  | case2 c cs rest hitem hle ih =>
    by_cases hc : c = '\n'
    · -- Inside of braces both characters of a line end are items by themselves.
      subst hc
      cases kind with
      | braced =>
        cases hitem
        have hreturn : afterItems .braced ('\r' :: '\n' :: crlf cs) =
            afterItems .braced ('\n' :: crlf cs) := afterItems_cons_some rfl
        have hfeed : afterItems .braced ('\n' :: crlf cs) = afterItems .braced (crlf cs) :=
          afterItems_cons_some rfl
        rw [crlf_newline, hreturn, hfeed]
        exact ih hcs.of_cons
      | tag => cases hitem
      | list => cases hitem
    · have hitem' : afterItem? kind c (crlf cs) = some (crlf rest) := by
        rw [afterItem?_crlf hcs.of_cons, hitem, Option.map_some]
      rw [crlf_cons hc, afterItems_cons_some hitem']
      exact ih (hcs.of_cons.of_suffix (afterItem?_suffix hitem))
  | case3 c cs hnone =>
    by_cases hc : c = '\n'
    · subst hc
      cases kind with
      | braced => cases hnone
      | tag => exact stuck_cons_iff.2 rfl
      | list => exact stuck_cons_iff.2 rfl
    · rw [crlf_cons hc]
      refine stuck_cons_iff.2 ?_
      rw [afterItem?_crlf hcs.of_cons, hnone, Option.map_none]

end SwitchMarkup.Items

import SwitchMarkup.Expression.Items

/-!
# The syntax of items

What an item is, said without a reader: a literal, a pair of matching brackets around more items, or
a single character that is neither bracket nor quote. A text is cut into items in at most one way,
because each item is known by its first character and ends with the first character that can end
it. So the readers, which never go back, find the items wherever there are any. Main statements:
`IsItem.exists_afterItem?` and `exists_isItem`.
-/

namespace SwitchMarkup.Items

/-! ## The grammar -/

/-- The brackets and the quotes. -/
def delimiters : List Char := ['(', ')', '[', ']', '\x7b', '\x7d', '"', '\'', '\x60']

/-- The inside of a literal on one line: a backslash with any one character behind it, or a
character other than the quote, a backslash or a line break. -/
inductive IsQuoted (quote : Char) : List Char → Prop where
  | nil : IsQuoted quote []
  | escape {c : Char} {cs : List Char} (hcs : IsQuoted quote cs) : IsQuoted quote ('\\' :: c :: cs)
  | plain {c : Char} {cs : List Char} (hquote : c ≠ quote) (hescape : c ≠ '\\') (hfeed : c ≠ '\n')
      (hreturn : c ≠ '\r') (hcs : IsQuoted quote cs) : IsQuoted quote (c :: cs)

/-- A literal: quoted on one line, or anything but backquotes between backquotes. -/
inductive IsLiteral : List Char → Prop where
  | quoted {quote : Char} {body : List Char} (hquote : quote = '"' ∨ quote = '\'')
      (hbody : IsQuoted quote body) : IsLiteral (quote :: (body ++ [quote]))
  | raw {body : List Char} (hbody : '\x60' ∉ body) : IsLiteral ('\x60' :: (body ++ ['\x60']))

/-- The three pairs of brackets. -/
inductive Pairs : Char → Char → Prop where
  | round : Pairs '(' ')'
  | square : Pairs '[' ']'
  | curly : Pairs '\x7b' '\x7d'

namespace Kind

/-- The opening brackets that begin no item of a kind. -/
def barredOpenings : Kind → List Char
  | braced => []
  | tag => ['\x7b']
  | list => []

/-- The characters that are no item of a kind, apart from the delimiters. -/
def barredPlain : Kind → List Char
  | braced => []
  | tag => ['\n', '\r']
  | list => ['\n', '\r', ':']

end Kind

mutual

/-- One item of a kind. -/
inductive IsItem : Kind → List Char → Prop where
  | literal {kind : Kind} {cs : List Char} (hcs : IsLiteral cs) : IsItem kind cs
  | group {kind : Kind} {opening close : Char} {body : List Char} (hpair : Pairs opening close)
      (hopening : opening ∉ kind.barredOpenings) (hbody : IsItems .braced body) :
      IsItem kind (opening :: (body ++ [close]))
  | plain {kind : Kind} {c : Char} (hdelimiter : c ∉ delimiters) (hplain : c ∉ kind.barredPlain) :
      IsItem kind [c]

/-- Items of a kind, one after the other. -/
inductive IsItems : Kind → List Char → Prop where
  | nil {kind : Kind} : IsItems kind []
  | cons {kind : Kind} {item cs : List Char} (hitem : IsItem kind item) (hcs : IsItems kind cs) :
      IsItems kind (item ++ cs)

end

variable {kind : Kind} {c quote opening close : Char} {cs ds rest body item run pending : List Char}

/-! ## Characters -/

theorem isQuote_iff : isQuote c = true ↔ (c = '"' ∨ c = '\'') ∨ c = '\x60' := by
  simp [isQuote]

theorem isDelimiter_of_isQuote (h : isQuote c = true) : isDelimiter c = true := by
  simp [isDelimiter, h]

theorem isDelimiter_iff : isDelimiter c = true ↔ c ∈ delimiters := by
  simp [isDelimiter, isQuote, delimiters, or_assoc]

/-- The brackets that are read as pairs are the pairs of the grammar. -/
theorem closing?_eq_some_iff : closing? c = some close ↔ Pairs c close := by
  constructor
  · intro h
    unfold closing? at h
    split at h
    next hc => subst hc; cases h; exact .round
    next =>
      split at h
      next hc => subst hc; cases h; exact .square
      next =>
        split at h
        next hc => subst hc; cases h; exact .curly
        next => cases h
  · intro h
    cases h <;> rfl

theorem isDelimiter_of_closing? (h : closing? c = some close) :
    isDelimiter c = true ∧ isDelimiter close = true := by
  cases closing?_eq_some_iff.1 h <;> decide

theorem not_isQuote_of_closing? (h : closing? c = some close) :
    isQuote c = false ∧ isQuote close = false := by
  cases closing?_eq_some_iff.1 h <;> decide

/-- A character that is no delimiter opens nothing. -/
theorem opens_nothing (h : isDelimiter c = false) : isQuote c = false ∧ closing? c = none := by
  refine ⟨Bool.eq_false_iff.2 fun hquote => ?_, ?_⟩
  · cases (isDelimiter_of_isQuote hquote).symm.trans h
  · cases hclose : closing? c with
    | none => rfl
    | some close => cases (isDelimiter_of_closing? hclose).1.symm.trans h

/-- A character that is no delimiter is an item by itself, or none. -/
theorem afterItem?_plain (h : isDelimiter c = false) :
    afterItem? kind c cs = if kind.admitsPlain c then some cs else none := by
  obtain ⟨hquote, hclose⟩ := opens_nothing h
  simp [afterItem?, hquote, hclose]

theorem ne_backslash_of_isQuote (h : isQuote c = true) : c ≠ '\\' := by
  rintro rfl
  exact absurd h (by decide)

theorem Kind.admitsGroup_iff : kind.admitsGroup c = true ↔ c ∉ kind.barredOpenings := by
  cases kind <;> simp [Kind.admitsGroup, Kind.barredOpenings]

theorem Kind.admitsPlain_iff :
    kind.admitsPlain c = true ↔ c ∉ delimiters ∧ c ∉ kind.barredPlain := by
  rw [← isDelimiter_iff, Bool.not_eq_true]
  cases kind <;> simp [Kind.admitsPlain, Kind.barredPlain, and_assoc]

/-! ## Literals -/

@[simp] theorem afterQuoted?_escape :
    afterQuoted? quote ('\\' :: c :: cs) = afterQuoted? quote cs := by
  rw [afterQuoted?]

theorem afterQuoted?_cons (hc : c ≠ '\\') :
    afterQuoted? quote (c :: cs) =
      if c = quote then some cs
      else if c = '\n' ∨ c = '\r' then none
      else afterQuoted? quote cs := by
  rw [afterQuoted?]
  intro d ds h
  exact absurd h hc

/-- A backslash at the very end of a text takes nothing with it, and no literal ends there. -/
theorem ne_backslash_of_afterQuoted? (hescape : ∀ d ds, c = '\\' → cs = d :: ds → False)
    (h : afterQuoted? quote cs = some rest) : c ≠ '\\' := by
  rintro rfl
  cases cs with
  | nil => cases h
  | cons d ds => exact hescape d ds rfl rfl

/-- A quoted body is read up to its quote. -/
theorem IsQuoted.afterQuoted? (h : IsQuoted quote body) (hquote : quote ≠ '\\')
    (rest : List Char) : afterQuoted? quote (body ++ quote :: rest) = some rest := by
  induction h with
  | nil => rw [List.nil_append, afterQuoted?_cons hquote, if_pos rfl]
  | escape _ ih =>
    rw [List.cons_append, List.cons_append, afterQuoted?_escape]
    exact ih
  | plain hne hescape hfeed hreturn _ ih =>
    rw [List.cons_append, afterQuoted?_cons hescape, if_neg hne, if_neg (by simp [hfeed, hreturn])]
    exact ih

/-- What is read up to a quote is a quoted body. -/
theorem exists_isQuoted (h : afterQuoted? quote cs = some rest) :
    ∃ body, IsQuoted quote body ∧ cs = body ++ quote :: rest := by
  fun_induction afterQuoted? quote cs with
  | case1 => cases h
  | case2 c cs ih =>
    obtain ⟨body, hbody, rfl⟩ := ih h
    exact ⟨'\\' :: c :: body, .escape hbody, rfl⟩
  | case3 cs =>
    cases h
    exact ⟨[], .nil, rfl⟩
  | case4 => cases h
  | case5 c cs hescape hne hbreak ih =>
    have hc := ne_backslash_of_afterQuoted? hescape h
    obtain ⟨hfeed, hreturn⟩ := not_or.1 hbreak
    obtain ⟨body, hbody, rfl⟩ := ih h
    exact ⟨c :: body, .plain hne hc hfeed hreturn hbody, rfl⟩

/-- A raw literal is read up to the first backquote. -/
theorem afterRaw?_eq_some_iff :
    afterRaw? cs = some rest ↔ ∃ body, '\x60' ∉ body ∧ cs = body ++ '\x60' :: rest := by
  constructor
  · intro h
    fun_induction afterRaw? cs with
    | case1 => cases h
    | case2 cs =>
      cases h
      exact ⟨[], List.not_mem_nil, rfl⟩
    | case3 c cs hne ih =>
      obtain ⟨body, hbody, rfl⟩ := ih h
      exact ⟨c :: body, List.not_mem_cons_of_ne_of_not_mem (Ne.symm hne) hbody, rfl⟩
  · rintro ⟨body, hbody, rfl⟩
    induction body with
    | nil => rw [List.nil_append, afterRaw?, if_pos rfl]
    | cons c body ih =>
      rw [List.cons_append, afterRaw?, if_neg (List.ne_of_not_mem_cons hbody).symm]
      exact ih (List.not_mem_of_not_mem_cons hbody)

/-- A literal is over at its closing quote, whatever stands behind that. -/
theorem IsLiteral.exists_afterLiteral? (h : IsLiteral cs) :
    ∃ quote body, cs = quote :: body ∧ isQuote quote = true ∧
      ∀ rest, afterLiteral? quote (body ++ rest) = some rest := by
  cases h with
  | @quoted quote body hquote hbody =>
    have hisQuote : isQuote quote = true := isQuote_iff.2 (.inl hquote)
    have hraw : quote ≠ '\x60' := by
      rcases hquote with rfl | rfl <;> decide
    refine ⟨quote, body ++ [quote], rfl, hisQuote, fun rest => ?_⟩
    rw [afterLiteral?, if_neg hraw, List.append_assoc]
    exact hbody.afterQuoted? (ne_backslash_of_isQuote hisQuote) rest
  | @raw body hbody =>
    refine ⟨'\x60', body ++ ['\x60'], rfl, rfl, fun rest => ?_⟩
    rw [afterLiteral?, if_pos rfl, List.append_assoc]
    exact afterRaw?_eq_some_iff.2 ⟨body, hbody, rfl⟩

/-- What is read as a literal is one. -/
theorem exists_isLiteral (hquote : isQuote quote = true) (h : afterLiteral? quote cs = some rest) :
    ∃ body, IsLiteral (quote :: body) ∧ cs = body ++ rest := by
  unfold afterLiteral? at h
  split at h
  next hraw =>
    subst hraw
    obtain ⟨body, hbody, rfl⟩ := afterRaw?_eq_some_iff.1 h
    exact ⟨body ++ ['\x60'], .raw hbody, by rw [List.append_assoc]; rfl⟩
  next hraw =>
    obtain ⟨body, hbody, rfl⟩ := exists_isQuoted h
    exact ⟨body ++ [quote], .quoted ((isQuote_iff.1 hquote).resolve_right hraw) hbody,
      by rw [List.append_assoc]; rfl⟩

/-! ## Groups -/

/-- The text closes the brackets that are open, innermost first, with items in front of each closing
bracket. -/
inductive Closes : List Char → List Char → List Char → Prop where
  | nil {rest : List Char} : Closes [] rest rest
  | cons {close : Char} {outer body mid rest : List Char} (hbody : IsItems .braced body)
      (hmid : Closes outer mid rest) : Closes (close :: outer) (body ++ close :: mid) rest

theorem Closes.behind_item (hitem : IsItem .braced item) (h : Closes (close :: pending) cs rest) :
    Closes (close :: pending) (item ++ cs) rest := by
  obtain _ | ⟨hbody, hmid⟩ := h
  rw [← List.append_assoc]
  exact .cons (.cons hitem hbody) hmid

/-- What the reader of groups has passed over are items, each bracket closed by its own. -/
theorem closes_of_afterGroups? (h : afterGroups? pending cs = some rest) :
    Closes pending cs rest := by
  fun_induction afterGroups? pending cs with
  | case1 => cases h; exact .nil
  | case2 => cases h
  | case3 outer close cs ih =>
    rw [← List.nil_append (close :: cs)]
    exact .cons .nil (ih h)
  | case4 close outer c cs hne inner hinner ih =>
    have hpair := closing?_eq_some_iff.1 hinner
    obtain _ | ⟨hbody, hmid⟩ := ih h
    rw [← List.cons_append, List.append_cons, List.cons_append]
    exact hmid.behind_item (.group hpair List.not_mem_nil hbody)
  | case5 close outer c cs hne hnone hquote mid hmid hle ih =>
    obtain ⟨body, hliteral, rfl⟩ := exists_isLiteral hquote hmid
    exact (ih h).behind_item (.literal hliteral)
  | case6 => cases h
  | case7 => cases h
  | case8 close outer c cs hne hnone hquote hplain ih =>
    exact (ih h).behind_item (.plain (mt isDelimiter_iff.2 hplain) List.not_mem_nil)

/-- A literal between open brackets is passed over. -/
theorem IsLiteral.afterGroups? (h : IsLiteral cs) (hpair : Pairs opening close) :
    afterGroups? (close :: pending) (cs ++ rest) = afterGroups? (close :: pending) rest := by
  obtain ⟨quote, body, rfl, hquote, hafter⟩ := h.exists_afterLiteral?
  have hne : quote ≠ close := by
    rintro rfl
    have hcloseQuote := (not_isQuote_of_closing? (closing?_eq_some_iff.2 hpair)).2
    cases hquote.symm.trans hcloseQuote
  have hnone : closing? quote = none := by
    cases hclosing : closing? quote with
    | none => rfl
    | some inner => cases hquote.symm.trans (not_isQuote_of_closing? hclosing).1
  rw [List.cons_append, Items.afterGroups?, if_neg hne]
  simp only [hnone, hquote, if_true]
  split
  next mid hmid =>
    cases (hafter rest).symm.trans hmid
    rfl
  next hno => cases (hafter rest).symm.trans hno

mutual

/-- An item inside of a bracket is passed over, and the bracket stays open. -/
theorem IsItem.afterGroups? {opening close : Char} (hpair : Pairs opening close) :
    ∀ {kind item}, IsItem kind item → ∀ pending rest,
      afterGroups? (close :: pending) (item ++ rest) = afterGroups? (close :: pending) rest
  | _, _, .literal hliteral, _, _ => hliteral.afterGroups? hpair
  | _, _, @IsItem.group _ opening' inner body hinner _ hbody, pending, rest => by
    have hne : opening' ≠ close := by
      cases hinner <;> cases hpair <;> decide
    rw [List.cons_append, List.append_assoc, Items.afterGroups?, if_neg hne]
    simp only [closing?_eq_some_iff.2 hinner]
    rw [IsItems.afterGroups? hinner hbody, List.singleton_append, Items.afterGroups?, if_pos rfl]
  | _, _, @IsItem.plain _ c hdelimiter _, pending, rest => by
    have hplain : isDelimiter c = false := Bool.eq_false_iff.2 (mt isDelimiter_iff.1 hdelimiter)
    obtain ⟨hquote, hnone⟩ := opens_nothing hplain
    have hne : c ≠ close := by
      rintro rfl
      have hclose := (isDelimiter_of_closing? (closing?_eq_some_iff.2 hpair)).2
      cases hclose.symm.trans hplain
    rw [List.singleton_append, Items.afterGroups?, if_neg hne]
    simp [hnone, hquote, hplain]

/-- Items inside of a bracket are passed over, and the bracket stays open. -/
theorem IsItems.afterGroups? {opening close : Char} (hpair : Pairs opening close) :
    ∀ {kind body}, IsItems kind body → ∀ pending rest,
      afterGroups? (close :: pending) (body ++ rest) = afterGroups? (close :: pending) rest
  | _, _, .nil, _, _ => rfl
  | _, _, .cons hitem hcs, pending, rest => by
    rw [List.append_assoc, IsItem.afterGroups? hpair hitem, IsItems.afterGroups? hpair hcs]

end

/-! ## Items -/

/-- An item is read in full, whatever stands behind it. -/
theorem IsItem.exists_afterItem? (h : IsItem kind item) :
    ∃ c body, item = c :: body ∧ ∀ rest, afterItem? kind c (body ++ rest) = some rest := by
  cases h with
  | literal hliteral =>
    obtain ⟨quote, body, rfl, hquote, hafter⟩ := hliteral.exists_afterLiteral?
    refine ⟨quote, body, rfl, fun rest => ?_⟩
    rw [afterItem?, if_pos hquote, hafter]
  | @group _ opening close body hpair hopening hbody =>
    have hclosing := closing?_eq_some_iff.2 hpair
    refine ⟨opening, body ++ [close], rfl, fun rest => ?_⟩
    have hquote : ¬isQuote opening = true :=
      Bool.eq_false_iff.1 (not_isQuote_of_closing? hclosing).1
    rw [afterItem?, if_neg hquote]
    simp only [hclosing, Kind.admitsGroup_iff.2 hopening, if_true]
    rw [List.append_assoc, IsItems.afterGroups? hpair hbody, List.singleton_append,
      Items.afterGroups?, if_pos rfl, Items.afterGroups?]
  | @plain _ c hdelimiter hplain =>
    refine ⟨c, [], rfl, fun rest => ?_⟩
    rw [afterItem?_plain (Bool.eq_false_iff.2 (mt isDelimiter_iff.1 hdelimiter)),
      if_pos (Kind.admitsPlain_iff.2 ⟨hdelimiter, hplain⟩), List.nil_append]

/-- What is read as an item is one. -/
theorem exists_isItem (h : afterItem? kind c cs = some rest) :
    ∃ body, IsItem kind (c :: body) ∧ cs = body ++ rest := by
  unfold afterItem? at h
  split at h
  next hquote =>
    obtain ⟨body, hbody, rfl⟩ := exists_isLiteral hquote h
    exact ⟨body, .literal hbody, rfl⟩
  next =>
    split at h
    next close hclosing =>
      split at h
      next hadmits =>
        obtain _ | ⟨hbody, hmid⟩ := closes_of_afterGroups? h
        cases hmid
        refine ⟨_ ++ [close], .group (closing?_eq_some_iff.1 hclosing)
          (Kind.admitsGroup_iff.1 hadmits) hbody, ?_⟩
        rw [List.append_assoc, List.singleton_append]
      next => cases h
    next =>
      split at h
      next hadmits =>
        cases h
        obtain ⟨hdelimiter, hplain⟩ := Kind.admitsPlain_iff.1 hadmits
        exact ⟨[], .plain hdelimiter hplain, rfl⟩
      next => cases h

/-- An item of several characters ends with a delimiter. -/
theorem IsItem.eq_nil_or_ends (h : IsItem kind (c :: body)) :
    body = [] ∨ ∃ lead last, isDelimiter last = true ∧ body = lead ++ [last] := by
  cases h with
  | literal hliteral =>
    cases hliteral with
    | quoted hquote =>
      exact .inr ⟨_, c, isDelimiter_of_isQuote (isQuote_iff.2 (.inl hquote)), rfl⟩
    | raw => exact .inr ⟨_, '\x60', rfl, rfl⟩
  | group hpair =>
    exact .inr ⟨_, _, (isDelimiter_of_closing? (closing?_eq_some_iff.2 hpair)).2, rfl⟩
  | plain => exact .inl rfl

end SwitchMarkup.Items

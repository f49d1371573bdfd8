/-!
# Items of an embedded expression

Where an embedded Go expression ends is decided by its lexical items alone: literals are passed
over whole, brackets are passed over in matching pairs, and any other character stands for itself.
A bracket or a quote that is never closed is no item, so a run of items ends in front of it.

Every reader here returns the text that is left.  Main statements: that text is a suffix of what
the reader was given (`afterItem?_suffix`, `afterItems_suffix`), and an item is never empty
(`length_afterItem?_lt`), which is why a run of items ends.
-/

namespace SwitchMarkup.Items

/-! ## Characters -/

/-- The bracket that closes a given opening bracket. -/
def closing? (c : Char) : Option Char :=
  if c = '(' then some ')'
  else if c = '[' then some ']'
  else if c = '\x7b' then some '\x7d'
  else none

/-- Whether a character opens a literal. -/
def isQuote (c : Char) : Bool := c == '"' || c == '\'' || c == '\x60'

/-- Whether a character is a bracket or a quote, and so never stands for itself. -/
def isDelimiter (c : Char) : Bool := "()[]\x7b\x7d".toList.contains c || isQuote c

/-! ## Literals -/

/-- The text after the closing quote `quote` of a literal on one line, in which a backslash takes
the next character with it, whatever that is. -/
def afterQuoted? (quote : Char) : List Char → Option (List Char)
  | [] => none
  | '\\' :: _ :: cs => afterQuoted? quote cs
  | c :: cs =>
    if c = quote then some cs
    else if c = '\n' ∨ c = '\r' then none
    else afterQuoted? quote cs

/-- The text after the closing backquote of a raw literal, which holds any other character. -/
def afterRaw? : List Char → Option (List Char)
  | [] => none
  | c :: cs => if c = '\x60' then some cs else afterRaw? cs

/-- The text after the literal that the quote `quote` has opened. -/
def afterLiteral? (quote : Char) (cs : List Char) : Option (List Char) :=
  if quote = '\x60' then afterRaw? cs else afterQuoted? quote cs

theorem afterQuoted?_suffix {quote : Char} {cs rest : List Char}
    (h : afterQuoted? quote cs = some rest) : rest <:+ cs := by
  fun_induction afterQuoted? quote cs with
  | case1 => cases h
  | case2 c cs ih => exact ((ih h).trans (List.suffix_cons ..)).trans (List.suffix_cons ..)
  | case3 cs => cases h; exact List.suffix_cons ..
  | case4 => cases h
  | case5 c cs _ _ _ ih => exact (ih h).trans (List.suffix_cons ..)

theorem afterRaw?_suffix {cs rest : List Char} (h : afterRaw? cs = some rest) : rest <:+ cs := by
  fun_induction afterRaw? cs with
  | case1 => cases h
  | case2 cs => cases h; exact List.suffix_cons ..
  | case3 c cs _ ih => exact (ih h).trans (List.suffix_cons ..)

theorem afterLiteral?_suffix {quote : Char} {cs rest : List Char}
    (h : afterLiteral? quote cs = some rest) : rest <:+ cs := by
  unfold afterLiteral? at h
  split at h
  · exact afterRaw?_suffix h
  · exact afterQuoted?_suffix h

/-! ## Groups -/

/-- The text after the groups whose closing brackets are `pending`, innermost first.  A bracket
that does not match, or a literal or group that never closes, is refused. -/
def afterGroups? (pending cs : List Char) : Option (List Char) :=
  match pending, cs with
  | [], cs => some cs
  | _ :: _, [] => none
  | close :: outer, c :: cs =>
    if c = close then afterGroups? outer cs
    else match closing? c with
      | some inner => afterGroups? (inner :: close :: outer) cs
      | none =>
        if isQuote c then
          match h : afterLiteral? c cs with
          | some rest =>
            have := (afterLiteral?_suffix h).length_le
            afterGroups? (close :: outer) rest
          | none => none
        else if isDelimiter c then none
        else afterGroups? (close :: outer) cs
termination_by cs.length

/-- What follows nested groups is an end of the text, whatever brackets are open. -/
theorem afterGroups?_suffix {pending cs rest : List Char}
    (h : afterGroups? pending cs = some rest) : rest <:+ cs := by
  fun_induction afterGroups? pending cs with
  | case1 => cases h; exact List.suffix_rfl
  | case2 => cases h
  | case3 _ _ _ ih => exact (ih h).trans (List.suffix_cons ..)
  | case4 _ _ _ _ _ _ _ ih => exact (ih h).trans (List.suffix_cons ..)
  | case5 _ _ _ _ _ _ _ _ hlit _ ih =>
    exact ((ih h).trans (afterLiteral?_suffix hlit)).trans (List.suffix_cons ..)
  | case6 => cases h
  | case7 => cases h
  | case8 _ _ _ _ _ _ _ _ ih => exact (ih h).trans (List.suffix_cons ..)

/-! ## Runs of items -/

/-- Which items may stand, outside all groups, in one kind of expression. -/
inductive Kind where
  /-- The inside of braces: any literal, any group and any character that is no delimiter. -/
  | braced
  /-- A switch tag: it keeps to its line outside of groups, and a brace ends it. -/
  | tag
  /-- A case list: it keeps to its line outside of groups, and a colon ends it. -/
  | list
deriving DecidableEq, Repr

namespace Kind

/-- Whether a group may begin with a given opening bracket. -/
def admitsGroup : Kind → Char → Bool
  | tag, c => c != '\x7b'
  | _, _ => true

/-- Whether a character may stand for itself. -/
def admitsPlain : Kind → Char → Bool
  | braced, c => !isDelimiter c
  | tag, c => !isDelimiter c && c != '\n' && c != '\r'
  | list, c => !isDelimiter c && c != '\n' && c != '\r' && c != ':'

end Kind

/-- The text after the item that begins with `c`. -/
def afterItem? (kind : Kind) (c : Char) (cs : List Char) : Option (List Char) :=
  if isQuote c then afterLiteral? c cs
  else match closing? c with
    | some close => if kind.admitsGroup c then afterGroups? [close] cs else none
    | none => if kind.admitsPlain c then some cs else none

theorem afterItem?_suffix {kind : Kind} {c : Char} {cs rest : List Char}
    (h : afterItem? kind c cs = some rest) : rest <:+ cs := by
  unfold afterItem? at h
  split at h
  · exact afterLiteral?_suffix h
  · split at h
    · split at h
      · exact afterGroups?_suffix h
      · cases h
    · split at h
      · cases h; exact List.suffix_rfl
      · cases h

/-- The text after the longest run of items. -/
def afterItems (kind : Kind) (cs : List Char) : List Char :=
  match cs with
  | [] => []
  | c :: cs =>
    match h : afterItem? kind c cs with
    | some rest =>
      have := (afterItem?_suffix h).length_le
      afterItems kind rest
    | none => c :: cs
termination_by cs.length

/-- What follows a run of items is an end of the text. -/
theorem afterItems_suffix (kind : Kind) (cs : List Char) : afterItems kind cs <:+ cs := by
  fun_induction afterItems kind cs with
  | case1 => exact List.suffix_rfl
  | case2 c cs rest h _ ih =>
    exact (ih.trans (afterItem?_suffix h)).trans (List.suffix_cons ..)
  | case3 => exact List.suffix_rfl

/-- An item takes at least one character. -/
theorem length_afterItem?_lt {kind : Kind} {c : Char} {cs rest : List Char}
    (h : afterItem? kind c cs = some rest) : rest.length < (c :: cs).length :=
  Nat.lt_succ_of_le (afterItem?_suffix h).length_le

end SwitchMarkup.Items

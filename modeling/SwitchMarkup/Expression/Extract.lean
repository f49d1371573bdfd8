import SwitchMarkup.Expression.Items
import SwitchMarkup.Failure
import SwitchMarkup.Keyword
import SwitchMarkup.Source.Tail

/-!
# Extracting embedded expressions

Each of the four contexts has a header of its own shape around its expression:

* `switch` and blanks, then a tag, up to an opening brace or the end of the line;
* `case` and blanks, then a list and a colon, or `default`, blanks and a colon;
* `fallthrough` and blanks, up to the end of the line;
* an opening brace, items, and the matching closing brace.

`extract` reads one header from the start of a tail and gives its expression, without the white
space around it, and the tail after the header.  Main statement: a header is never empty
(`extract_length_lt`).
-/

namespace SwitchMarkup

/-- An expression and what is left after the header that holds it. -/
structure Extraction where
  /-- The text of the expression, at byte offsets. -/
  expression : Fragment Nat
  /-- The tail after the header. -/
  rest : Tail
deriving DecidableEq, Repr

namespace Fragment

/-- The piece of source that begins at a byte offset and reads `cs`. -/
def ofChars (offset : Nat) (cs : List Char) : Fragment Nat :=
  ⟨String.ofList cs, ⟨offset, offset + byteLength cs⟩⟩

/-- A piece of source that begins at a byte offset, without the white space around it.  Of a piece
that is white space throughout, the empty end is left. -/
def trimmed (offset : Nat) (cs : List Char) : Fragment Nat :=
  ofChars (offset + byteLength (cs.takeWhile isWhiteSpace)) (trim cs)

end Fragment

/-- The refusal of an expression at a byte offset. -/
def refuse (context : Context) (expected : Expected) (offset : Nat) :
    Except (Failure Nat) Extraction :=
  .error ⟨offset, .invalidExpression context expected⟩

/-- Reads `switch`, blanks and a tag.  The tag runs as far as its items do and has to end in front
of an opening brace or at the end of the line; the brace is left to be read. -/
def extractSwitch (t : Tail) : Except (Failure Nat) Extraction :=
  match (t.drop? Keyword.switch).bind Tail.skipBlanks? with
  | none => refuse .switch .switchHeader t.offset
  | some u =>
    let rest := u.goTo (Items.afterItems .tag u.chars)
    if rest.startsWith ['\x7b'] || rest.atLineBreak then
      .ok ⟨.trimmed u.offset (upTo rest.chars u.chars), rest⟩
    else refuse .switch .endOfLine rest.offset

/-- Reads `case`, blanks, a list and a colon, or `default`, blanks and a colon. -/
def extractCase (t : Tail) : Except (Failure Nat) Extraction :=
  match (t.drop? Keyword.case).bind Tail.skipBlanks? with
  | some u =>
    let list := u.goTo (Items.afterItems .list u.chars)
    if list.chars.length = u.chars.length then refuse .case .caseList u.offset
    else match list.drop? [':'] with
      | some rest => .ok ⟨.trimmed u.offset (upTo list.chars u.chars), rest⟩
      | none => refuse .case .clauseHeader t.offset
  | none =>
    match (t.drop? Keyword.default).bind fun u => u.skipBlanks.drop? [':'] with
    | some rest => .ok ⟨.ofChars t.offset Keyword.default, rest⟩
    | none => refuse .case .clauseHeader t.offset

/-- Reads `fallthrough` and blanks, which the end of the line has to follow. -/
def extractFallthrough (t : Tail) : Except (Failure Nat) Extraction :=
  match t.drop? Keyword.fallthrough with
  | none => refuse .fallthrough .fallthroughLine t.offset
  | some u =>
    let rest := u.skipBlanks
    if rest.atLineBreak then .ok ⟨.ofChars t.offset Keyword.fallthrough, rest⟩
    else refuse .fallthrough .endOfLine rest.offset

/-- Reads an expression in braces, which must hold more than white space. -/
def extractOutput (t : Tail) : Except (Failure Nat) Extraction :=
  match t.drop? ['\x7b'] with
  | none => refuse .output .bracedExpression t.offset
  | some u =>
    let body := u.goTo (Items.afterItems .braced u.chars)
    match body.drop? ['\x7d'] with
    | none => refuse .output .bracedExpression t.offset
    | some rest =>
      let expression := Fragment.trimmed u.offset (upTo body.chars u.chars)
      if expression.value.isEmpty then .error ⟨t.offset, .missingExpression⟩
      else .ok ⟨expression, rest⟩

/-- Reads the header of a context from the start of a tail. -/
def extract : Context → Tail → Except (Failure Nat) Extraction
  | .switch => extractSwitch
  | .case => extractCase
  | .fallthrough => extractFallthrough
  | .output => extractOutput

/-! ## A header is never empty -/

theorem refuse_ne_ok {context : Context} {expected : Expected} {offset : Nat} {x : Extraction} :
    refuse context expected offset ≠ .ok x := nofun

/-- A keyword with something after it that leaves a suffix makes the tail shorter. -/
theorem length_lt_of_drop?_bind {word : List Char} {t v : Tail} {f : Tail → Option Tail}
    (h : (t.drop? word).bind f = some v) (hword : word ≠ [])
    (hf : ∀ u, f u = some v → v.chars <:+ u.chars) : v.chars.length < t.chars.length := by
  obtain ⟨u, hu, hv⟩ := Option.bind_eq_some_iff.1 h
  exact Nat.lt_of_le_of_lt (hf u hv).length_le (Tail.length_drop?_lt hu hword)

/-- The header of a `switch` takes at least its keyword. -/
theorem extractSwitch_length_lt {t : Tail} {x : Extraction} (h : extractSwitch t = .ok x) :
    x.rest.chars.length < t.chars.length := by
  simp only [extractSwitch] at h
  split at h
  · exact absurd h refuse_ne_ok
  next u hu =>
    have hlt := length_lt_of_drop?_bind hu (by decide) fun _ => Tail.skipBlanks?_suffix
    have hle := (Items.afterItems_suffix .tag u.chars).length_le
    split at h
    · cases h
      exact Nat.lt_of_le_of_lt hle hlt
    · exact absurd h refuse_ne_ok

theorem extractCase_length_lt {t : Tail} {x : Extraction} (h : extractCase t = .ok x) :
    x.rest.chars.length < t.chars.length := by
  simp only [extractCase] at h
  split at h
  next u hu =>
    have hlt := length_lt_of_drop?_bind hu (by decide) fun _ => Tail.skipBlanks?_suffix
    have hle := (Items.afterItems_suffix .list u.chars).length_le
    split at h
    · exact absurd h refuse_ne_ok
    · split at h
      next rest hrest =>
        cases h
        have := Tail.length_drop?_lt hrest (by decide)
        exact Nat.lt_trans (Nat.lt_of_lt_of_le this hle) hlt
      · exact absurd h refuse_ne_ok
  · split at h
    next rest hrest =>
      cases h
      refine length_lt_of_drop?_bind hrest (by decide) fun u hu => ?_
      exact (Tail.drop?_suffix hu).trans (Tail.skipWhile_suffix _ _)
    · exact absurd h refuse_ne_ok

theorem extractFallthrough_length_lt {t : Tail} {x : Extraction}
    (h : extractFallthrough t = .ok x) : x.rest.chars.length < t.chars.length := by
  simp only [extractFallthrough] at h
  split at h
  · exact absurd h refuse_ne_ok
  next u hu =>
    have hlt := Tail.length_drop?_lt hu (by decide)
    split at h
    · cases h
      exact Nat.lt_of_le_of_lt (Tail.skipWhile_suffix _ u).length_le hlt
    · exact absurd h refuse_ne_ok

theorem extractOutput_length_lt {t : Tail} {x : Extraction} (h : extractOutput t = .ok x) :
    x.rest.chars.length < t.chars.length := by
  simp only [extractOutput] at h
  split at h
  · exact absurd h refuse_ne_ok
  next u hu =>
    have hlt := Tail.length_drop?_lt hu (by decide)
    have hle := (Items.afterItems_suffix .braced u.chars).length_le
    split at h
    · exact absurd h refuse_ne_ok
    next rest hrest =>
      have := Tail.length_drop?_lt hrest (by decide)
      split at h
      · cases h
      · cases h
        exact Nat.lt_trans (Nat.lt_of_lt_of_le this hle) hlt

/-- Reading a header leaves strictly less to read. -/
theorem extract_length_lt {context : Context} {t : Tail} {x : Extraction}
    (h : extract context t = .ok x) : x.rest.chars.length < t.chars.length := by
  cases context with
  | switch => exact extractSwitch_length_lt h
  | case => exact extractCase_length_lt h
  | fallthrough => exact extractFallthrough_length_lt h
  | output => exact extractOutput_length_lt h

end SwitchMarkup

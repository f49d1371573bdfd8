import SwitchMarkup.Text.Bytes
import SwitchMarkup.Text.WhiteSpace

/-!
# Tails of a source

Reading moves forward through a source.  A `Tail` is what is left to read, with the byte offset at
which it begins; skipping and matching give a new tail that is an end of the old one.

Main statements: each operation leaves a suffix of the characters it started from, and a matched
word makes the tail strictly shorter.
-/

namespace SwitchMarkup

/-- The part of `cs` before the suffix `rest`. -/
def upTo (rest cs : List Char) : List Char := cs.take (cs.length - rest.length)

/-- The unread end of a source. -/
structure Tail where
  /-- The byte offset of the first unread character. -/
  offset : Nat
  /-- The unread characters. -/
  chars : List Char
deriving DecidableEq, Repr

namespace Tail

/-- The whole of a source, unread. -/
def start (cs : List Char) : Tail := ⟨0, cs⟩

/-- Whether nothing is left. -/
def isEmpty (t : Tail) : Bool := t.chars.isEmpty

/-- The tail whose characters are the suffix `rest` of this one. -/
def goTo (t : Tail) (rest : List Char) : Tail :=
  ⟨t.offset + byteLength (upTo rest t.chars), rest⟩

/-- The tail after all leading characters of a class. -/
def skipWhile (p : Char → Bool) (t : Tail) : Tail :=
  ⟨t.offset + byteLength (t.chars.takeWhile p), t.chars.dropWhile p⟩

/-- The tail after all leading white space, line breaks included. -/
def skipWhiteSpace (t : Tail) : Tail := t.skipWhile isWhiteSpace

/-- The tail after all leading spaces and tabs. -/
def skipBlanks (t : Tail) : Tail := t.skipWhile isBlank

/-- The tail after one or more spaces and tabs. -/
def skipBlanks? (t : Tail) : Option Tail :=
  if t.chars.head?.any isBlank then some t.skipBlanks else none

/-- Whether the tail begins with a word. -/
def startsWith (word : List Char) (t : Tail) : Bool := word.isPrefixOf t.chars

/-- The tail after a word that it begins with. -/
def drop? (word : List Char) (t : Tail) : Option Tail :=
  if t.startsWith word then some ⟨t.offset + byteLength word, t.chars.drop word.length⟩
  else none

/-- The tail after one line end: a line feed, alone or after a carriage return. -/
def dropLineEnd? (t : Tail) : Option Tail :=
  (t.drop? ['\n']).or (t.drop? ['\r', '\n'])

/-- Whether the tail begins where a line of a header ends: at a line break or at the end. -/
def atLineBreak (t : Tail) : Bool := t.chars.head?.all isLineBreak

/-! ## What is left is a suffix -/

/-- A text is what stands in front of one of its ends, and that end. -/
theorem upTo_append {rest cs : List Char} (h : rest <:+ cs) : upTo rest cs ++ rest = cs :=
  (List.suffix_iff_eq_append.1 h).symm ▸ rfl

theorem skipWhile_suffix (p : Char → Bool) (t : Tail) : (t.skipWhile p).chars <:+ t.chars :=
  List.dropWhile_suffix p

theorem skipBlanks?_suffix {t u : Tail} (h : t.skipBlanks? = some u) : u.chars <:+ t.chars := by
  unfold skipBlanks? at h
  split at h
  · cases h; exact skipWhile_suffix _ _
  · cases h

/-- A word that is taken stood in front, and the offset grows by its bytes. -/
theorem drop?_eq_some {word : List Char} {t u : Tail} (h : t.drop? word = some u) :
    t.chars = word ++ u.chars ∧ u.offset = t.offset + byteLength word := by
  unfold drop? at h
  split at h
  next hword =>
    obtain ⟨rest, hrest⟩ := List.isPrefixOf_iff_prefix.1 hword
    cases h
    exact ⟨by simp [← hrest], rfl⟩
  · cases h

theorem drop?_suffix {word : List Char} {t u : Tail} (h : t.drop? word = some u) :
    u.chars <:+ t.chars :=
  ⟨word, (drop?_eq_some h).1.symm⟩

theorem dropLineEnd?_suffix {t u : Tail} (h : t.dropLineEnd? = some u) : u.chars <:+ t.chars := by
  simp only [dropLineEnd?, Option.or_eq_some_iff] at h
  rcases h with h | ⟨_, h⟩ <;> exact drop?_suffix h

/-- Matching a word that is not empty leaves less to read. -/
theorem length_drop?_lt {word : List Char} {t u : Tail} (h : t.drop? word = some u)
    (hword : word ≠ []) : u.chars.length < t.chars.length := by
  have := List.length_pos_iff.2 hword
  rw [(drop?_eq_some h).1]
  simp
  omega

end Tail

end SwitchMarkup

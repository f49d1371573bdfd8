/-!
# Byte offsets in text

Offsets into a template count bytes of its UTF-8 encoding, while the text itself is a list of
characters.  This module measures a text in bytes and cuts it at a byte offset.  An offset is a
boundary when it falls between two characters; only there do the two halves of a cut fit together
to the number of bytes asked for.

Main definitions: `byteLength`, `takeBytes`, `dropBytes` and `isBoundary`.
-/

namespace SwitchMarkup

/-- The number of bytes that the UTF-8 encoding of a text takes. -/
def byteLength (cs : List Char) : Nat := cs.foldl (fun n c => n + c.utf8Size) 0

/-- The characters of a text that begin within its first `n` bytes. -/
def takeBytes : Nat → List Char → List Char
  | 0, _ => []
  | _ + 1, [] => []
  | n + 1, c :: cs => c :: takeBytes (n + 1 - c.utf8Size) cs

/-- The characters of a text that begin at its `n`-th byte or later. -/
def dropBytes : Nat → List Char → List Char
  | 0, cs => cs
  | _ + 1, [] => []
  | n + 1, c :: cs => dropBytes (n + 1 - c.utf8Size) cs

/-- Whether the first `n` bytes of a text are whole characters. -/
def isBoundary : Nat → List Char → Bool
  | 0, _ => true
  | _ + 1, [] => false
  | n + 1, c :: cs => c.utf8Size ≤ n + 1 && isBoundary (n + 1 - c.utf8Size) cs

/-! ## Measuring -/

@[simp] theorem byteLength_nil : byteLength [] = 0 := rfl

/-- Counting may start from any number. -/
theorem foldl_utf8Size (n : Nat) (cs : List Char) :
    cs.foldl (fun n c => n + c.utf8Size) n = n + byteLength cs := by
  unfold byteLength
  induction cs generalizing n with
  | nil => simp
  | cons c cs ih =>
    rw [List.foldl_cons, List.foldl_cons, ih, ih (0 + c.utf8Size)]
    omega

@[simp] theorem byteLength_cons (c : Char) (cs : List Char) :
    byteLength (c :: cs) = c.utf8Size + byteLength cs := by
  have h := foldl_utf8Size (0 + c.utf8Size) cs
  rw [Nat.zero_add] at h
  rw [← h]
  simp [byteLength]

@[simp] theorem byteLength_append (cs ds : List Char) :
    byteLength (cs ++ ds) = byteLength cs + byteLength ds := by
  induction cs with
  | nil => simp
  | cons c cs ih =>
    rw [List.cons_append, byteLength_cons, byteLength_cons, ih]
    omega

/-! ## Cutting -/

/-- A cut loses nothing, wherever it falls. -/
theorem takeBytes_append_dropBytes (n : Nat) (cs : List Char) :
    takeBytes n cs ++ dropBytes n cs = cs := by
  fun_induction takeBytes n cs <;> simp_all [dropBytes]

/-- A cut at a boundary takes exactly the bytes asked for. -/
theorem byteLength_takeBytes {n : Nat} {cs : List Char} (h : isBoundary n cs) :
    byteLength (takeBytes n cs) = n := by
  fun_induction takeBytes n cs with
  | case1 => rfl
  | case2 => simp [isBoundary] at h
  | case3 n c cs ih =>
    obtain ⟨hc, hcs⟩ : c.utf8Size ≤ n + 1 ∧ isBoundary (n + 1 - c.utf8Size) cs := by
      simpa [isBoundary] using h
    simp [ih hcs]
    omega

end SwitchMarkup

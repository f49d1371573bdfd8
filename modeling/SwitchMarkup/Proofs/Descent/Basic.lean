import SwitchMarkup.Failure
import SwitchMarkup.Proofs.Source.Order
import SwitchMarkup.Proofs.Source.Places

/-!
# Actions that may fault

The steps of a parse work on tails, and no operation on a tail can go wrong. A reader that has only
a source and a byte offset is not so well off: it may cut a text inside of a character, take a
number from a smaller one, count on beyond what a machine word holds, look for an entry that a table
does not have, or recurse without end.
Here each of these is a `Fault`, and an `Action` is a computation on a state that may come to one.
That a template is read without faults is then a statement about actions.

Main definitions: `Fault`, `Action`, and the checked operations `cut`, `minus` and `plus`.
-/

namespace SwitchMarkup.Descent

variable {σ α β : Type}

/-- What leaves an operation without a result. -/
inductive Fault where
  /-- A text is cut inside of a character, past its end, or before the start of the cut. -/
  | badCut
  /-- A number is taken from a smaller one. -/
  | underflow
  /-- A sum is too large for a machine word. -/
  | overflow
  /-- A table has no such entry. -/
  | noEntry
  /-- A recursion or a loop goes on for longer than it was granted. -/
  | outOfFuel
deriving DecidableEq, Repr

/-- What ends an action before it has a value: the template is refused, or the reader is at
fault. -/
inductive Stop where
  /-- The template is refused. -/
  | failure (failure : Failure Position)
  /-- An operation has no result. -/
  | fault (fault : Fault)
deriving DecidableEq, Repr

/-- A computation on a state. A state is left behind even where the computation stops. -/
abbrev Action (σ : Type) : Type → Type := ExceptT Stop (StateM σ)

namespace Action

/-- What an action comes to from a state on, and the state that it leaves. -/
def on (x : Action σ α) (s : σ) : Except Stop α × σ := x.run.run s

/-- Refuses the template. -/
def fails (failure : Failure Position) : Action σ α := throw (.failure failure)

/-- The value of a checked operation, if it has one. -/
def check : Except Fault α → Action σ α
  | .ok a => pure a
  | .error fault => throw (.fault fault)

/-- What an action comes to, as a value even where it refuses the template. A fault goes through. -/
def settle (x : Action σ α) : Action σ (Except (Failure Position) α) :=
  tryCatch (Except.ok <$> x) fun
    | .failure failure => pure (.error failure)
    | .fault fault => throw (.fault fault)

variable {x : Action σ α} {f : α → Action σ β} {s s' : σ} {a : α}

@[simp] theorem on_pure (a : α) (s : σ) : (pure a : Action σ α).on s = (.ok a, s) := rfl

@[simp] theorem on_get (s : σ) : (get : Action σ σ).on s = (.ok s, s) := rfl

@[simp] theorem on_modify (g : σ → σ) (s : σ) :
    (modify g : Action σ PUnit).on s = (.ok ⟨⟩, g s) := rfl

@[simp] theorem on_fails (failure : Failure Position) (s : σ) :
    (fails failure : Action σ α).on s = (.error (.failure failure), s) := rfl

@[simp] theorem on_check_ok (a : α) (s : σ) : (check (.ok a) : Action σ α).on s = (.ok a, s) := rfl

@[simp] theorem on_check_error (fault : Fault) (s : σ) :
    (check (.error fault) : Action σ α).on s = (.error (.fault fault), s) := rfl

/-- An action that has a value hands it on. -/
theorem on_bind_of_ok (h : x.on s = (.ok a, s')) : (x >>= f).on s = (f a).on s' := by
  simp only [on, ExceptT.run_bind, StateT.run_bind] at h ⊢
  rw [h]
  rfl

/-- An action that stops hands nothing on. -/
theorem on_bind_of_error {stop : Stop} (h : x.on s = (.error stop, s')) :
    (x >>= f).on s = (.error stop, s') := by
  simp only [on, ExceptT.run_bind, StateT.run_bind] at h ⊢
  rw [h]
  rfl

/-- A value is settled as it is. -/
theorem on_settle_of_ok (h : x.on s = (.ok a, s')) : x.settle.on s = (.ok (.ok a), s') := by
  simp only [on, settle, ExceptT.run_tryCatch, ExceptT.run_map, StateT.run_bind,
    StateT.run_map] at h ⊢
  rw [h]
  rfl

/-- A refusal is settled as a value. -/
theorem on_settle_of_failure {failure : Failure Position}
    (h : x.on s = (.error (.failure failure), s')) :
    x.settle.on s = (.ok (.error failure), s') := by
  simp only [on, settle, ExceptT.run_tryCatch, ExceptT.run_map, StateT.run_bind,
    StateT.run_map] at h ⊢
  rw [h]
  rfl

/-- A fault is not settled. -/
theorem on_settle_of_fault {fault : Fault} (h : x.on s = (.error (.fault fault), s')) :
    x.settle.on s = (.error (.fault fault), s') := by
  simp only [on, settle, ExceptT.run_tryCatch, ExceptT.run_map, StateT.run_bind,
    StateT.run_map] at h ⊢
  rw [h]
  rfl

end Action

/-! ## Checked operations -/

/-- The difference of two numbers, which must not be less than nothing. -/
def minus (m n : Nat) : Except Fault Nat := if n ≤ m then .ok (m - n) else .error .underflow

/-- The sum of two numbers, which must be one of the first `size`. -/
def plus (size m n : Nat) : Except Fault Nat :=
  if m + n < size then .ok (m + n) else .error .overflow

/-- The part of a text between two byte offsets, which must stand in this order and split no
character. -/
def cut (cs : List Char) (start stop : Nat) : Except Fault (List Char) :=
  if start ≤ stop ∧ isBoundary start cs ∧ isBoundary stop cs then
    .ok (takeBytes (stop - start) (dropBytes start cs))
  else .error .badCut

variable {cs front mid rest : List Char} {m n start stop : Nat}

theorem minus_of_le (h : n ≤ m) : minus m n = .ok (m - n) := if_pos h

/-- Between its ends a part of a text is cut out. -/
theorem cut_append (front mid rest : List Char) :
    cut (front ++ (mid ++ rest)) (byteLength front) (byteLength front + byteLength mid) =
      .ok mid := by
  have hstop : isBoundary (byteLength front + byteLength mid) (front ++ (mid ++ rest)) = true := by
    rw [← byteLength_append, ← List.append_assoc]
    exact isBoundary_append (front ++ mid) rest
  rw [cut, if_pos ⟨Nat.le_add_right .., isBoundary_append front _, hstop⟩, Nat.add_sub_cancel_left,
    dropBytes_append, takeBytes_append]

/-- A cut up to the end of a text fails only where it begins inside of a character. -/
theorem cut_to_end (cs : List Char) (start : Nat) :
    cut cs start (byteLength cs) =
      if isBoundary start cs then .ok (dropBytes start cs) else .error .badCut := by
  by_cases hstart : isBoundary start cs = true
  · obtain ⟨front, rest, rfl, rfl⟩ := exists_append_of_isBoundary hstart
    have h := cut_append front rest []
    rw [List.append_nil, ← byteLength_append] at h
    rw [if_pos hstart, h, dropBytes_append]
  · rw [if_neg hstart, cut, if_neg fun h => hstart h.2.1]

end SwitchMarkup.Descent

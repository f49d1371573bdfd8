import SwitchMarkup.Proofs.Descent.Parser
import SwitchMarkup.Proofs.Parser.Advance

/-!
# Readers that follow a run

A reader of the recursive descent and a run of steps read the same source, the one with positions
and a log in its state, the other with offsets and a list of what is reported. The reader follows
the run when it never faults, refuses the source where the run does, and otherwise comes to a value
at a tail from which the run goes on. Readers that follow one another can be put in sequence
(`Follows.bind`), and what a reader does besides, going back and counting the open switches, keeps
this (`Follows.attempt`, `Follows.deeper`).
-/

namespace SwitchMarkup

/-- What a parse comes to that takes this step. -/
def Step.outcome (o : Options) : Step → Outcome Nat
  | .advance events stage rest => (run o stage rest).after events
  | .finish nodes => ⟨[], .ok nodes⟩
  | .fail events failure => ⟨events, .error failure⟩

/-- A run is its first step, and what follows from it. -/
theorem run_eq_outcome (o : Options) (stage : Stage) (t : Tail) :
    run o stage t = (step o stage t).outcome o := by
  rw [run_eq]
  rfl

namespace Descent

open SwitchMarkup.Descent.Action

variable {α β : Type} {source : Source} {c c' : Cursor} {r : Reader} {t u : Tail} {depth : Nat}
  {log events : List Event} {m : Outcome Nat} {offset : Nat} {cause : Cause}

/-! ## Small parts -/

theorem onCursor_on {x : Action Cursor α} {result : Except Stop α}
    (h : x.on c = (result, c')) :
    (onCursor x).on ⟨c, depth, log⟩ = (result, ⟨c', depth, log⟩) := by
  show ((x.on c).1, Reader.mk (x.on c).2 depth log) = _
  rw [h]

theorem here_on (r : Reader) : here.on r = (.ok r.cursor.index, r) := rfl

theorem report_on (event : Event) (r : Reader) :
    (report event).on r = (.ok ⟨⟩, { r with log := r.log ++ [event] }) := rfl

theorem refuseAt_onCursor (h : source.isBoundary offset = true) (hc : c.source = source) :
    (onCursor (refuseAt offset cause) : Action Reader α).on ⟨c, depth, log⟩ =
      (.error (.failure ⟨source.positionAt offset, cause⟩), ⟨c, depth, log⟩) := by
  subst hc
  exact onCursor_on (refuseAt_on h cause)

theorem refuseHere_on (ht : t.EndOf source.chars) :
    (refuseHere cause : Action Reader α).on ⟨⟨source, t.offset⟩, depth, log⟩ =
      (.error (.failure ⟨source.positionAt t.offset, cause⟩),
        ⟨⟨source, t.offset⟩, depth, log⟩) := by
  rw [refuseHere, on_bind_of_ok (here_on _)]
  exact refuseAt_onCursor (isBoundary_of_endOf ht) rfl

theorem seek_onCursor (hu : u.EndOf source.chars) (hc : c.source = source) :
    (onCursor (seek u.offset)).on ⟨c, depth, log⟩ =
      (.ok ⟨⟩, ⟨⟨source, u.offset⟩, depth, log⟩) := by
  subst hc
  exact onCursor_on (seek_on hu)

theorem goBack_on (ht : t.EndOf source.chars) :
    (goBack t.offset).on ⟨⟨source, u.offset⟩, depth, log⟩ =
      (.ok ⟨⟩, ⟨⟨source, t.offset⟩, depth, log ++ rewind t u⟩) := by
  rw [goBack, on_bind_of_ok (here_on _), rewind]
  by_cases hoffset : u.offset = t.offset
  · rw [if_pos hoffset, if_pos hoffset, List.append_nil]
    exact seek_onCursor ht rfl
  · rw [if_neg hoffset, if_neg hoffset, on_bind_of_ok (report_on _ _)]
    exact seek_onCursor ht rfl

theorem attempt_on_some {x : Action Reader (Option α)} {a : α} {r' : Reader}
    (hx : x.on r = (.ok (some a), r')) : (attempt x).on r = (.ok (some a), r') := by
  rw [attempt, on_bind_of_ok (here_on r), on_bind_of_ok hx, on_pure]

theorem attempt_on_error {x : Action Reader (Option α)} {stop : Stop} {r' : Reader}
    (hx : x.on r = (.error stop, r')) : (attempt x).on r = (.error stop, r') := by
  rw [attempt, on_bind_of_ok (here_on r), on_bind_of_error hx]

/-- A construct that is no match leaves the cursor where it was. -/
theorem attempt_on_none {x : Action Reader (Option α)} {log' : List Event}
    (ht : t.EndOf source.chars)
    (hx : x.on ⟨⟨source, t.offset⟩, depth, log⟩ = (.ok none, ⟨⟨source, u.offset⟩, depth, log'⟩)) :
    (attempt x).on ⟨⟨source, t.offset⟩, depth, log⟩ =
      (.ok none, ⟨⟨source, t.offset⟩, depth, log' ++ rewind t u⟩) := by
  rw [attempt, on_bind_of_ok (here_on _), on_bind_of_ok hx]
  dsimp only
  rw [on_bind_of_ok (goBack_on ht), on_pure]

/-- An attempt that has not moved the cursor does not report that it goes back. -/
theorem attempt_on_none_here {x : Action Reader (Option α)} {log' : List Event}
    (ht : t.EndOf source.chars)
    (hx : x.on ⟨⟨source, t.offset⟩, depth, log⟩ = (.ok none, ⟨⟨source, t.offset⟩, depth, log'⟩)) :
    (attempt x).on ⟨⟨source, t.offset⟩, depth, log⟩ =
      (.ok none, ⟨⟨source, t.offset⟩, depth, log'⟩) := by
  rw [attempt_on_none ht hx, rewind, if_pos rfl, List.append_nil]

/-- An open switch is counted while an action is carried out, and not after it. -/
theorem deeper_on_ok {x : Action Reader α} {a : α} {log' : List Event}
    (hx : x.on ⟨c, depth + 1, log⟩ = (.ok a, ⟨c', depth + 1, log'⟩)) :
    (deeper x).on ⟨c, depth, log⟩ = (.ok a, ⟨c', depth, log'⟩) := by
  rw [deeper, on_bind_of_ok (on_modify _ _), on_bind_of_ok (on_settle_of_ok hx),
    on_bind_of_ok (on_get _), minus_of_le (Nat.le_add_left 1 depth), on_bind_of_ok (on_check_ok ..),
    on_bind_of_ok (on_modify _ _), Nat.add_sub_cancel]
  rfl

theorem deeper_on_failure {x : Action Reader α} {failure : Failure Position} {log' : List Event}
    (hx : x.on ⟨c, depth + 1, log⟩ = (.error (.failure failure), ⟨c', depth + 1, log'⟩)) :
    (deeper x).on ⟨c, depth, log⟩ = (.error (.failure failure), ⟨c', depth, log'⟩) := by
  rw [deeper, on_bind_of_ok (on_modify _ _), on_bind_of_ok (on_settle_of_failure hx),
    on_bind_of_ok (on_get _), minus_of_le (Nat.le_add_left 1 depth), on_bind_of_ok (on_check_ok ..),
    on_bind_of_ok (on_modify _ _), Nat.add_sub_cancel]
  rfl

/-! ## Following a run -/

/-- What a reader comes to in a state with this depth and log follows the outcome `m` of a run: it
is the same failure, or a value at a tail `u` where the outcome `next` of the rest of the run stands
in the relation `post` to both. -/
inductive Follows (source : Source) (depth : Nat) (log : List Event) (m : Outcome Nat)
    (post : α → Tail → Outcome Nat → Prop) : Except Stop α × Reader → Prop where
  | value {a : α} {u : Tail} {next : Outcome Nat} {events : List Event}
      (hu : u.EndOf source.chars) (hm : m = next.after events) (hpost : post a u next) :
      Follows source depth log m post (.ok a, ⟨⟨source, u.offset⟩, depth, log ++ events⟩)
  | failure {failure : Failure Nat} {c : Cursor} {events : List Event}
      (hm : m = ⟨events, .error failure⟩) :
      Follows source depth log m post
        (.error (.failure (failure.map source.positionAt)), ⟨c, depth, log ++ events⟩)

namespace Follows

variable {post : α → Tail → Outcome Nat → Prop} {post' : β → Tail → Outcome Nat → Prop}

/-- A value that is found without a report. -/
theorem of_ok {a : α} {x : Action Reader α} (hu : u.EndOf source.chars)
    (hx : x.on r = (.ok a, ⟨⟨source, u.offset⟩, depth, log⟩)) (hpost : post a u m) :
    Follows source depth log m post (x.on r) := by
  have h : Follows source depth log m post (.ok a, ⟨⟨source, u.offset⟩, depth, log ++ []⟩) :=
    .value hu (Outcome.after_nil m).symm hpost
  rw [List.append_nil] at h
  rwa [hx]

/-- A failure that is found without a report. -/
theorem of_failure {failure : Failure Nat} {x : Action Reader α}
    (hx : x.on r = (.error (.failure (failure.map source.positionAt)), ⟨c, depth, log⟩))
    (hm : m = ⟨[], .error failure⟩) : Follows source depth log m post (x.on r) := by
  have h : Follows source depth log m post
      (.error (.failure (failure.map source.positionAt)), ⟨c, depth, log ++ []⟩) := .failure hm
  rw [List.append_nil] at h
  rwa [hx]

/-- A refusal, where the run takes a step that refuses. -/
theorem of_refuse {o : Options} {x : Action Reader α}
    (hx : x.on r = (.error (.failure ⟨source.positionAt offset, cause⟩), ⟨c, depth, log⟩)) :
    Follows source depth log ((Step.refuse offset cause).outcome o) post (x.on r) := by
  have hplaced : x.on r = (.error (.failure (Failure.map source.positionAt ⟨offset, cause⟩)),
      ⟨c, depth, log⟩) := hx
  exact of_failure hplaced rfl

/-- What follows the rest of a run follows the run from the reports in front of it on. -/
theorem after {result : Except Stop α × Reader} {next : Outcome Nat}
    (h : Follows source depth (log ++ events) next post result) (hm : m = next.after events) :
    Follows source depth log m post result := by
  cases h with
  | value hu hnext hpost =>
    rw [hnext, Outcome.after_after] at hm
    rw [List.append_assoc]
    exact .value hu hm hpost
  | failure hnext =>
    rw [hnext] at hm
    rw [List.append_assoc]
    exact .failure hm

/-- Readers that follow a run one after the other follow it together. -/
theorem bind {x : Action Reader α} {f : α → Action Reader β}
    (hx : Follows source depth log m post (x.on r))
    (hf : ∀ a u next log', u.EndOf source.chars → post a u next →
      Follows source depth log' next post' ((f a).on ⟨⟨source, u.offset⟩, depth, log'⟩)) :
    Follows source depth log m post' ((x >>= f).on r) := by
  generalize hresult : x.on r = result at hx
  cases hx with
  | value hu hm hpost =>
    rw [on_bind_of_ok hresult]
    exact (hf _ _ _ _ hu hpost).after hm
  | failure hm =>
    rw [on_bind_of_error hresult]
    exact .failure hm

/-- What holds of a value may be weakened. -/
theorem mono {result : Except Stop α × Reader} {post' : α → Tail → Outcome Nat → Prop}
    (h : Follows source depth log m post result)
    (hpost : ∀ a u next, u.EndOf source.chars → post a u next → post' a u next) :
    Follows source depth log m post' result := by
  cases h with
  | value hu hm ha => exact .value hu hm (hpost _ _ _ hu ha)
  | failure hm => exact .failure hm

/-- A construct that is a match is not gone back from. -/
theorem attempt {x : Action Reader (Option α)} {post : Option α → Tail → Outcome Nat → Prop}
    (hx : Follows source depth log m post (x.on r)) (hsome : ∀ u next, ¬post none u next) :
    Follows source depth log m post ((attempt x).on r) := by
  generalize hresult : x.on r = result at hx
  cases hx with
  | @value a u next events hu hm hpost =>
    cases a with
    | none => exact absurd hpost (hsome u next)
    | some a =>
      rw [attempt_on_some hresult]
      exact .value hu hm hpost
  | failure hm =>
    rw [attempt_on_error hresult]
    exact .failure hm

/-- An action with one more switch open follows the run with the depth as it was. -/
theorem deeper {x : Action Reader α}
    (hx : Follows source (depth + 1) log m post (x.on ⟨c, depth + 1, log⟩)) :
    Follows source depth log m post ((deeper x).on ⟨c, depth, log⟩) := by
  generalize hresult : x.on ⟨c, depth + 1, log⟩ = result at hx
  cases hx with
  | value hu hm hpost =>
    rw [deeper_on_ok hresult]
    exact .value hu hm hpost
  | failure hm =>
    rw [deeper_on_failure hresult]
    exact .failure hm

end Follows

end Descent

end SwitchMarkup

import SwitchMarkup.Parser.Progress
import SwitchMarkup.Source.Basic

/-!
# Parsing

`run` takes steps until the source is read or refused, and gathers what the steps report.  `parse`
is the same for a whole source, with byte offsets resolved to positions.
-/

namespace SwitchMarkup

/-- What a parse comes to, with all that it reported. -/
structure Outcome (π : Type) where
  /-- The reports, in order. -/
  events : List Event
  /-- The template, or why there is none. -/
  result : Except (Failure π) (Template π)

namespace Outcome

/-- The same outcome after earlier reports. -/
def after {π : Type} (events : List Event) (x : Outcome π) : Outcome π :=
  ⟨events ++ x.events, x.result⟩

/-- The same outcome at the image of its places. -/
def map {π ρ : Type} (f : π → ρ) (x : Outcome π) : Outcome ρ :=
  ⟨x.events,
    match x.result with
    | .ok nodes => .ok (Template.map f nodes)
    | .error failure => .error (failure.map f)⟩

theorem after_nil {π : Type} (x : Outcome π) : x.after [] = x := rfl

/-- Events that were recorded in two batches stand in front as one. -/
theorem after_after {π : Type} (events events' : List Event) (x : Outcome π) :
    (x.after events').after events = x.after (events ++ events') := by
  rw [after, after, after, List.append_assoc]

end Outcome

/-- Reads to the end of the source from a stage on. -/
def run (o : Options) (stage : Stage) (t : Tail) : Outcome Nat :=
  match h : step o stage t with
  | .advance events stage' rest =>
    have := length_lt_of_step h
    (run o stage' rest).after events
  | .finish nodes => ⟨[], .ok nodes⟩
  | .fail events failure => ⟨events, .error failure⟩
termination_by t.chars.length

/-- A run is its first step and the run after it. -/
theorem run_eq (o : Options) (stage : Stage) (t : Tail) :
    run o stage t =
      match step o stage t with
      | .advance events stage' rest => (run o stage' rest).after events
      | .finish nodes => ⟨[], .ok nodes⟩
      | .fail events failure => ⟨events, .error failure⟩ := by
  rw [run]
  split <;> simp_all

/-- The outcome of reading a whole source, with places as byte offsets. -/
def readSource (o : Options) (cs : List Char) : Outcome Nat := run o .initial (.start cs)

/-- The outcome of reading a whole source, with places resolved. -/
def parseWithEvents (source : String) (o : Options := {}) : Outcome Position :=
  (readSource o source.toList).map (Source.ofString source).positionAt

/-- The template that a source holds, or why it is refused. -/
def parse (source : String) (o : Options := {}) : Except (Failure Position) (Template Position) :=
  (parseWithEvents source o).result

end SwitchMarkup

import SwitchMarkup.Parser.Step

/-!
# Every step shortens the tail

A step that goes on has read at least one character.  Main statement: `length_lt_of_step`, from
which a parse ends on every source.
-/

namespace SwitchMarkup

/-- A step that, if it goes on, leaves fewer characters than `t` has. -/
structure Step.Shortens (s : Step) (t : Tail) : Prop where
  /-- The tail that the step leaves is the shorter one. -/
  length_lt : ∀ {events stage rest}, s = .advance events stage rest →
    rest.chars.length < t.chars.length

namespace Step.Shortens

theorem refuse (offset : Nat) (cause : Cause) (t : Tail) : (Step.refuse offset cause).Shortens t :=
  ⟨fun h => nomatch h⟩

theorem fail (events : List Event) (failure : Failure Nat) (t : Tail) :
    (Step.fail events failure).Shortens t :=
  ⟨fun h => nomatch h⟩

theorem finish (nodes : List (Node Nat)) (t : Tail) : (Step.finish nodes).Shortens t :=
  ⟨fun h => nomatch h⟩

/-- A step that goes on has to leave less text. -/
theorem advance {events : List Event} {stage : Stage} {rest t : Tail}
    (h : rest.chars.length < t.chars.length) : (Step.advance events stage rest).Shortens t := by
  refine ⟨fun heq => ?_⟩
  cases heq
  exact h

/-- A step that shortens a suffix shortens the whole. -/
theorem trans {s : Step} {u t : Tail} (h : s.Shortens u) (hle : u.chars.length ≤ t.chars.length) :
    s.Shortens t :=
  ⟨fun heq => Nat.lt_of_lt_of_le (h.length_lt heq) hle⟩

end Step.Shortens

/-! ## Clauses and blocks -/

theorem Tail.skipHeaderEnd_suffix (t : Tail) : t.skipHeaderEnd.chars <:+ t.chars := by
  unfold Tail.skipHeaderEnd
  have hblanks := Tail.skipWhile_suffix isBlank t
  cases h : t.skipBlanks.dropLineEnd? with
  | none => exact hblanks
  | some u => exact (Tail.dropLineEnd?_suffix h).trans hblanks

theorem Tail.dropBlockOpening?_suffix {t u : Tail} (h : t.dropBlockOpening? = some u) :
    u.chars <:+ t.chars := by
  obtain ⟨v, hv, hu⟩ := Option.bind_eq_some_iff.1 h
  have hlast := (Tail.dropLineEnd?_suffix hu).trans (Tail.skipWhile_suffix _ _)
  exact (hlast.trans (Tail.drop?_suffix hv)).trans (Tail.skipWhile_suffix _ _)

theorem openClause_shortens (around : List Frame) (block : Block) (t : Tail) :
    (openClause around block t).Shortens t := by
  unfold openClause
  split
  · exact .fail ..
  next x hx =>
    refine .advance ?_
    exact Nat.lt_of_le_of_lt (Tail.skipHeaderEnd_suffix x.rest).length_le (extractCase_length_lt hx)

theorem closeBlock_shortens (o : Options) (around : List Frame) (block : Block)
    (events : List Event) (t : Tail) : (closeBlock o around block events t).Shortens t := by
  unfold closeBlock
  split
  · exact .refuse ..
  · split
    · exact .fail ..
    next rest hrest => exact .advance (Tail.length_drop?_lt hrest (by decide))

/-- A clause that ends takes what the step behind it takes. -/
theorem closeClause_shortens {o : Options} {frame : Frame} {children : List (Node Nat)}
    {next : Block → Step} {t : Tail} (h : ∀ block, (next block).Shortens t) :
    (closeClause o frame children next).Shortens t := by
  unfold closeClause
  split
  · exact .refuse ..
  · exact h _

/-- Between two clauses a header or a closing brace is taken. -/
theorem stepBlock_shortens (o : Options) (around : List Frame) (block : Block) (t : Tail) :
    (stepBlock o around block t).Shortens t := by
  have hle := (Tail.skipWhile_suffix isWhiteSpace t).length_le
  simp only [stepBlock]
  split
  · exact (openClause_shortens ..).trans hle
  · exact (closeBlock_shortens ..).trans hle

/-! ## Nodes -/

theorem stepFallthrough_shortens (around : List Frame) (nodes : List (Node Nat)) (t : Tail) :
    (stepFallthrough around nodes t).Shortens t := by
  unfold stepFallthrough
  split
  · exact .fail ..
  next x hx =>
    split
    · exact .refuse ..
    · exact .advance (extractFallthrough_length_lt hx)

/-- The header of a `switch` and the opening of its block are taken from the text. -/
theorem stepSwitch_shortens (o : Options) (around : List Frame) (nodes : List (Node Nat))
    (t : Tail) : (stepSwitch o around nodes t).Shortens t := by
  unfold stepSwitch
  split
  · exact .fail ..
  next x hx =>
    split
    · exact .refuse ..
    next rest hrest =>
      split
      · exact .refuse ..
      · refine .advance ?_
        exact Nat.lt_of_le_of_lt (Tail.dropBlockOpening?_suffix hrest).length_le
          (extractSwitch_length_lt hx)

theorem stepOutput_shortens (around : List Frame) (nodes : List (Node Nat)) (t : Tail) :
    (stepOutput around nodes t).Shortens t := by
  unfold stepOutput
  split
  · exact .fail ..
  next x hx => exact .advance (extractOutput_length_lt hx)

/-- Text that is not empty has at least the first character. -/
theorem stepText_shortens (around : List Frame) (nodes : List (Node Nat)) (t : Tail) :
    (stepText around nodes t).Shortens t := by
  simp only [stepText]
  split
  · exact .refuse ..
  next hvalue =>
    refine .advance ?_
    have hrun : t.chars.takeWhile (fun c => !endsText c) ≠ [] := by
      intro h
      exact hvalue (by rw [h]; rfl)
    have hsplit := List.takeWhile_append_dropWhile (p := fun c => !endsText c) (l := t.chars)
    have hlength := congrArg List.length hsplit
    have hpos := List.length_pos_iff.2 hrun
    rw [List.length_append] at hlength
    simp only [Tail.skipWhile]
    omega

/-- Whatever node is read, something is taken from the text. -/
theorem stepNode_shortens (o : Options) (around : List Frame) (nodes : List (Node Nat))
    (lineStart : Bool) (t : Tail) : (stepNode o around nodes lineStart t).Shortens t := by
  unfold stepNode
  split
  · exact stepFallthrough_shortens ..
  · split
    · exact stepSwitch_shortens ..
    · split
      · exact stepOutput_shortens ..
      · exact stepText_shortens ..

/-! ## Bodies -/

/-- Within a body a node, a header or a closing brace is taken. -/
theorem stepBody_shortens (o : Options) (around : List Frame) (nodes : List (Node Nat))
    (lineStart : Bool) (t : Tail) : (stepBody o around nodes lineStart t).Shortens t := by
  refine Step.Shortens.trans (u := t.skipWhiteSpace) ?_ (Tail.skipWhile_suffix _ t).length_le
  simp only [stepBody]
  split
  · split
    · exact .finish ..
    · exact stepNode_shortens ..
  · split
    · exact closeClause_shortens fun _ => closeBlock_shortens ..
    · split
      · exact closeClause_shortens fun _ => openClause_shortens ..
      · split
        · split
          · exact .refuse ..
          · exact closeClause_shortens fun _ => closeBlock_shortens ..
        · exact stepNode_shortens ..

/-- A step that goes on leaves strictly less to read. -/
theorem length_lt_of_step {o : Options} {stage stage' : Stage} {t rest : Tail}
    {events : List Event} (h : step o stage t = .advance events stage' rest) :
    rest.chars.length < t.chars.length := by
  cases stage with
  | body around nodes lineStart => exact (stepBody_shortens o around nodes lineStart t).length_lt h
  | block around block => exact (stepBlock_shortens o around block t).length_lt h

end SwitchMarkup

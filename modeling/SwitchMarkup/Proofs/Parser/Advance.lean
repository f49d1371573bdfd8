import SwitchMarkup.Proofs.Grammar.Run
import SwitchMarkup.Proofs.Grammar.Suffix

/-!
# What a step that goes on has read

A step that goes on has passed over white space and read one construct behind it: a node without a
block, the header of a switch, the header of a clause, or a closing brace. `Advances` says for each
what the next stage is and what is reported, and every step is one of these (`Advances.of_step`). So
an invariant of a parse needs one case for each construct and never opens the definition of a step.

The first such invariant is where a parse stands: in its source, and in front of the first clause of
a switch right behind the line of the header (`Stage.StandsAt`).
-/

namespace SwitchMarkup

/-- The node is no switch. -/
def Node.IsLeaf {π : Type} (node : Node π) : Prop :=
  ∀ tag clauses block, node ≠ .switch tag clauses block

/-- Whether a keyword would count behind the white space that comes next. -/
def Tail.atLineStart (lineStart : Bool) (t : Tail) : Bool :=
  lineStart || (t.chars.takeWhile isWhiteSpace).contains '\n'

/-- What is reported when a search for a clause passes from one tail to another and finds none. -/
def rewind (t u : Tail) : List Event :=
  if u.offset = t.offset then [] else [.rewound u.offset t.offset]

/-- The steps that go on, in a source of `total` bytes: from a stage at a tail, with what they report,
to the next stage at the tail behind the construct. -/
inductive Advances (o : Options) (total : Nat) :
    Stage → Tail → List Event → Stage → Tail → Prop where
  /-- A node without a block. -/
  | leaf {around nodes lineStart t node rest}
      (hnode : ReadsNode o around.length (t.atLineStart lineStart) t.skipWhiteSpace.chars node
        rest.chars) (hleaf : node.IsLeaf) :
      Advances o total (.body around nodes lineStart) t []
        (.body around (nodes ++ [node.map (placeIn total)]) false) rest
  /-- The header of a switch with its line. -/
  | opens {around nodes lineStart t tag rest} (hline : t.atLineStart lineStart = true)
      (hheader : ReadsSwitchHeader t.skipWhiteSpace.chars tag rest.chars)
      (hlimit : o.limitReached? around.length = none) :
      Advances o total (.body around nodes lineStart) t []
        (.block around ⟨nodes, t.skipWhiteSpace.offset, tag.map (placeIn total), []⟩) rest
  /-- The header of the first clause of a switch, with its line. -/
  | firstClause {around block t header gap rest}
      (hheader : ReadsClauseHeader t.skipWhiteSpace.chars header (gap ++ rest.chars))
      (hgap : IsRun isWhiteSpace gap) :
      Advances o total (.block around block) t []
        (.body (⟨block, header.map (placeIn total)⟩ :: around) [] true) rest
  /-- The header of a further clause, which ends the clause in front of it. -/
  | nextClause {frame outer nodes lineStart t header gap rest}
      (hline : t.atLineStart lineStart = true)
      (hearly : o.enforced (earlyFallthrough? nodes) = none)
      (hheader : ReadsClauseHeader t.skipWhiteSpace.chars header (gap ++ rest.chars))
      (hgap : IsRun isWhiteSpace gap) :
      Advances o total (.body (frame :: outer) nodes lineStart) t []
        (.body (⟨frame.finish nodes, header.map (placeIn total)⟩ :: outer) [] true) rest
  /-- The brace of a switch without clauses. -/
  | closesEmpty {around block t rest}
      (hfinal : o.enforced (finalFallthrough? block.clauses) = none)
      (hbrace : t.skipWhiteSpace.chars = '\x7d' :: rest.chars) :
      Advances o total (.block around block) t
        (rewind t t.skipWhiteSpace ++
          [.parsedSwitch block.tag.value block.clauses.length around.length])
        (.body around (block.close rest.offset) false) rest
  /-- The brace of a switch, which ends its last clause as well. -/
  | closes {frame outer nodes lineStart t rest}
      (hearly : o.enforced (earlyFallthrough? nodes) = none)
      (hfinal : o.enforced (finalFallthrough? (frame.finish nodes).clauses) = none)
      (hbrace : t.skipWhiteSpace.chars = '\x7d' :: rest.chars) :
      Advances o total (.body (frame :: outer) nodes lineStart) t
        [.parsedSwitch (frame.finish nodes).tag.value (frame.finish nodes).clauses.length
          outer.length]
        (.body outer ((frame.finish nodes).close rest.offset) false) rest

variable {o : Options} {total : Nat} {around outer : List Frame} {frame : Frame}
  {nodes : List (Node Nat)} {block : Block} {lineStart : Bool} {stage stage' : Stage}
  {events before : List Event} {t rest : Tail} {source : List Char}

/-! ## Clauses and blocks -/

/-- A step that opens a clause has read a header of the grammar and white space behind it. -/
theorem openClause_advance (ht : t.Fits total) (hopens : OpensClause t.chars)
    (h : openClause around block t = .advance events stage rest) :
    rest.Fits total ∧ events = [] ∧ ∃ header gap,
      ReadsClauseHeader t.chars header (gap ++ rest.chars) ∧ IsRun isWhiteSpace gap ∧
        stage = .body (⟨block, header.map (placeIn total)⟩ :: around) [] true := by
  unfold openClause at h
  split at h
  · cases h
  next x hx =>
    obtain ⟨header, hheader, hexpr, hfits⟩ := ReadsClauseHeader.of_extractCase ht hopens hx
    obtain ⟨gap, hgap, hskip⟩ := exists_white_append_skipHeaderEnd x.rest
    rw [hskip] at hheader
    cases h
    refine ⟨hfits.skipHeaderEnd, rfl, header, gap, hheader, hgap, ?_⟩
    rw [← hexpr]
    rfl

/-- A step that closes a block stands at its brace, has nothing misplaced, and reports the
switch. -/
theorem closeBlock_advance (ht : t.Fits total)
    (h : closeBlock o around block before t = .advance events stage rest) :
    rest.Fits total ∧ o.enforced (finalFallthrough? block.clauses) = none ∧
      t.chars = '\x7d' :: rest.chars ∧
      events = before ++ [.parsedSwitch block.tag.value block.clauses.length around.length] ∧
      stage = .body around (block.close rest.offset) false := by
  unfold closeBlock at h
  split at h
  · cases h
  next hfinal =>
    split at h
    · cases h
    next u hu =>
      obtain ⟨hchars, hfits⟩ := (Tail.drop?_eq_some_iff ht).1 hu
      cases h
      exact ⟨hfits, hfinal, hchars, rfl, rfl⟩

theorem closeClause_advance {next : Block → Step}
    (h : closeClause o frame nodes next = .advance events stage rest) :
    o.enforced (earlyFallthrough? nodes) = none ∧
      next (frame.finish nodes) = .advance events stage rest := by
  unfold closeClause at h
  split at h
  · cases h
  next hearly => exact ⟨hearly, h⟩

/-- A step that goes on from between two clauses is one of the listed advances. -/
theorem stepBlock_advance (ht : t.Fits total)
    (h : stepBlock o around block t = .advance events stage rest) :
    rest.Fits total ∧ Advances o total (.block around block) t events stage rest := by
  have hfits : t.skipWhiteSpace.Fits total := ht.skipWhile isWhiteSpace
  simp only [stepBlock] at h
  split at h
  next hopens =>
    obtain ⟨hrest, rfl, header, gap, hheader, hgap, rfl⟩ :=
      openClause_advance hfits (Tail.startsClause_iff.1 hopens) h
    exact ⟨hrest, .firstClause hheader hgap⟩
  next =>
    obtain ⟨hrest, hfinal, hbrace, rfl, rfl⟩ := closeBlock_advance hfits h
    exact ⟨hrest, .closesEmpty hfinal hbrace⟩

/-! ## Nodes -/

theorem stepFallthrough_advance (ht : t.Fits total)
    (h : stepFallthrough around nodes t = .advance events stage rest) :
    rest.Fits total ∧ events = [] ∧ around.length ≠ 0 ∧ ∃ keyword,
      ReadsFallthrough t.chars keyword rest.chars ∧
        stage = .body around (nodes ++ [.fallthrough (keyword.map (placeIn total))]) false := by
  unfold stepFallthrough at h
  split at h
  · cases h
  next x hx =>
    obtain ⟨keyword, hkeyword, hexpr, hfits⟩ := ReadsFallthrough.of_extractFallthrough ht hx
    split at h
    · cases h
    next hdepth =>
      cases h
      have hlength : around.length ≠ 0 := by
        rwa [List.isEmpty_iff, ← List.length_eq_zero_iff] at hdepth
      exact ⟨hfits, rfl, hlength, keyword, hkeyword, by rw [hexpr]⟩

/-- A step that opens a block has read the header of a `switch` within the limit. -/
theorem stepSwitch_advance (ht : t.Fits total)
    (hkeyword : Keyword.spaced Keyword.switch <+: t.chars)
    (h : stepSwitch o around nodes t = .advance events stage rest) :
    rest.Fits total ∧ events = [] ∧ o.limitReached? around.length = none ∧ ∃ tag,
      ReadsSwitchHeader t.chars tag rest.chars ∧
        stage = .block around ⟨nodes, t.offset, tag.map (placeIn total), []⟩ := by
  unfold stepSwitch at h
  split at h
  · cases h
  next x hx =>
    split at h
    · cases h
    next u hu =>
      obtain ⟨tag, hheader, hexpr, hfits⟩ := ReadsSwitchHeader.of_extractSwitch ht hkeyword hx hu
      split at h
      · cases h
      next hlimit =>
        cases h
        exact ⟨hfits, rfl, hlimit, tag, hheader, by rw [hexpr]⟩

theorem stepOutput_advance (ht : t.Fits total)
    (h : stepOutput around nodes t = .advance events stage rest) :
    rest.Fits total ∧ events = [] ∧ ∃ expression,
      ReadsOutput t.chars expression rest.chars ∧
        stage = .body around (nodes ++ [.output (expression.map (placeIn total))]) false := by
  unfold stepOutput at h
  split at h
  · cases h
  next x hx =>
    obtain ⟨expression, hread, hexpr, hfits⟩ := ReadsOutput.of_extractOutput ht hx
    cases h
    exact ⟨hfits, rfl, expression, hread, by rw [hexpr]⟩

theorem stepText_advance (ht : t.Fits total) (hstart : Stops isWhiteSpace t.chars)
    (h : stepText around nodes t = .advance events stage rest) :
    rest.Fits total ∧ events = [] ∧ ∃ content, ReadsText t.chars content rest.chars ∧
      stage = .body around (nodes ++ [.text (content.map (placeIn total))]) false := by
  simp only [stepText] at h
  split at h
  · cases h
  next hvalue =>
    obtain ⟨content, hcontent, hexpr⟩ :=
      ReadsText.of_takeWhile ht hstart (fun hnil => hvalue (by rw [hnil]; rfl))
    cases h
    exact ⟨ht.skipWhile _, rfl, content, hcontent, by rw [hexpr]⟩

/-- A step from the first character of a node on reads the node, or the header if it is a switch. -/
theorem stepNode_advance (ht : t.Fits total) (hstart : Stops isWhiteSpace t.chars)
    (h : stepNode o around nodes lineStart t = .advance events stage rest) :
    rest.Fits total ∧ events = [] ∧
      ((∃ node, ReadsNode o around.length lineStart t.chars node rest.chars ∧ node.IsLeaf ∧
        stage = .body around (nodes ++ [node.map (placeIn total)]) false) ∨
      (lineStart = true ∧ o.limitReached? around.length = none ∧ ∃ tag,
        ReadsSwitchHeader t.chars tag rest.chars ∧
          stage = .block around ⟨nodes, t.offset, tag.map (placeIn total), []⟩)) := by
  unfold stepNode at h
  split at h
  next hword =>
    obtain ⟨rfl, -⟩ := Bool.and_eq_true_iff.1 hword
    obtain ⟨hfits, hevents, hdepth, keyword, hkeyword, hstage⟩ := stepFallthrough_advance ht h
    exact ⟨hfits, hevents, .inl ⟨_, .fallthrough rfl hdepth hkeyword, nofun, hstage⟩⟩
  next hnofallthrough =>
    split at h
    next hword =>
      obtain ⟨rfl, hkeyword⟩ := Bool.and_eq_true_iff.1 hword
      obtain ⟨hfits, hevents, hlimit, hopened⟩ :=
        stepSwitch_advance ht (Tail.startsWith_iff.1 hkeyword) h
      exact ⟨hfits, hevents, .inr ⟨rfl, hlimit, hopened⟩⟩
    next hnoswitch =>
      split at h
      · obtain ⟨hfits, hevents, expression, hexpression, hstage⟩ := stepOutput_advance ht h
        exact ⟨hfits, hevents, .inl ⟨_, .output hexpression, nofun, hstage⟩⟩
      · obtain ⟨hfits, hevents, content, hcontent, hstage⟩ := stepText_advance ht hstart h
        refine ⟨hfits, hevents, .inl ⟨_, .text hcontent ?_, nofun, hstage⟩⟩
        rintro rfl (hword | hword)
        · exact hnofallthrough (Bool.and_eq_true_iff.2 ⟨rfl, Tail.startsWith_iff.2 hword⟩)
        · exact hnoswitch (Bool.and_eq_true_iff.2 ⟨rfl, Tail.startsWith_iff.2 hword⟩)

/-! ## Bodies -/

/-- A step that goes on from within a body is one of the listed advances. -/
theorem stepBody_advance (ht : t.Fits total)
    (h : stepBody o around nodes lineStart t = .advance events stage rest) :
    rest.Fits total ∧ Advances o total (.body around nodes lineStart) t events stage rest := by
  have hfits : t.skipWhiteSpace.Fits total := ht.skipWhile isWhiteSpace
  have hstart : Stops isWhiteSpace t.skipWhiteSpace.chars := stops_dropWhile isWhiteSpace t.chars
  have hnode : ∀ {around},
      stepNode o around nodes (t.atLineStart lineStart) t.skipWhiteSpace =
        .advance events stage rest →
      rest.Fits total ∧ Advances o total (.body around nodes lineStart) t events stage rest := by
    intro around hstep
    obtain ⟨hrest, rfl, ⟨node, hread, hleaf, rfl⟩ | ⟨hline, hlimit, tag, hheader, rfl⟩⟩ :=
      stepNode_advance hfits hstart hstep
    · exact ⟨hrest, .leaf hread hleaf⟩
    · exact ⟨hrest, .opens hline hheader hlimit⟩
  have hclose : ∀ {frame outer},
      closeClause o frame nodes (fun block => closeBlock o outer block [] t.skipWhiteSpace) =
        .advance events stage rest →
      rest.Fits total ∧
        Advances o total (.body (frame :: outer) nodes lineStart) t events stage rest := by
    intro frame outer hstep
    obtain ⟨hearly, hstep⟩ := closeClause_advance hstep
    obtain ⟨hrest, hfinal, hbrace, rfl, rfl⟩ := closeBlock_advance hfits hstep
    exact ⟨hrest, .closes hearly hfinal hbrace⟩
  simp only [stepBody] at h
  cases around with
  | nil =>
    simp only at h
    split at h
    · cases h
    · exact hnode h
  | cons frame outer =>
    simp only at h
    split at h
    · exact hclose h
    · split at h
      next hclause =>
        obtain ⟨hline, hopens⟩ := Bool.and_eq_true_iff.1 hclause
        obtain ⟨hearly, hstep⟩ := closeClause_advance h
        obtain ⟨hrest, rfl, header, gap, hheader, hgap, rfl⟩ :=
          openClause_advance hfits (Tail.startsClause_iff.1 hopens) hstep
        exact ⟨hrest, .nextClause hline hearly hheader hgap⟩
      · split at h
        · split at h
          · cases h
          · exact hclose h
        · exact hnode h

/-- Every step that goes on has read one of the constructs. -/
theorem Advances.of_step (ht : t.Fits total) (h : step o stage t = .advance events stage' rest) :
    rest.Fits total ∧ Advances o total stage t events stage' rest := by
  cases stage with
  | body around nodes lineStart => exact stepBody_advance ht h
  | block around block => exact stepBlock_advance ht h

/-- What a step leaves is an end of what it found. -/
theorem Advances.suffix (h : Advances o total stage t events stage' rest) :
    rest.chars <:+ t.chars := by
  have hskip : t.skipWhiteSpace.chars <:+ t.chars := Tail.skipWhile_suffix isWhiteSpace t
  cases h with
  | leaf hnode _ => exact hnode.suffix.trans hskip
  | opens _ hheader _ => exact hheader.suffix.trans hskip
  | firstClause hheader _ => exact ((List.suffix_append ..).trans hheader.suffix).trans hskip
  | nextClause _ _ hheader _ => exact ((List.suffix_append ..).trans hheader.suffix).trans hskip
  | closesEmpty _ hbrace =>
    rw [hbrace] at hskip
    exact (List.suffix_cons ..).trans hskip
  | closes _ _ hbrace =>
    rw [hbrace] at hskip
    exact (List.suffix_cons ..).trans hskip

/-- A step that goes on in the same body with one more node has read that node. -/
theorem Advances.exists_node {node : Node Nat}
    (h : Advances o total (.body around nodes lineStart) t events
      (.body around (nodes ++ [node]) false) rest) :
    ∃ read, ReadsNode o around.length (t.atLineStart lineStart) t.skipWhiteSpace.chars read
      rest.chars ∧ node = read.map (placeIn total) := by
  generalize hstage : Stage.body around (nodes ++ [node]) false = stage at h
  cases h with
  | leaf hnode _ =>
    obtain ⟨-, hnodes, -⟩ := Stage.body.inj hstage
    exact ⟨_, hnode, List.head_eq_of_cons_eq (List.append_cancel_left hnodes)⟩
  | opens => cases hstage
  | nextClause => exact absurd (Stage.body.inj hstage).2.2 nofun
  | closes => exact absurd (Stage.body.inj hstage).1 (List.cons_ne_self _ _)

/-! ## The last step -/

theorem openClause_ne_finish : openClause around block t ≠ .finish nodes := by
  intro h
  unfold openClause at h
  split at h <;> cases h

theorem closeBlock_ne_finish : closeBlock o around block before t ≠ .finish nodes := by
  intro h
  unfold closeBlock at h
  split at h
  · cases h
  · split at h <;> cases h

theorem closeClause_ne_finish {children : List (Node Nat)} {next : Block → Step}
    (hnext : ∀ block, next block ≠ .finish nodes) :
    closeClause o frame children next ≠ .finish nodes := by
  intro h
  unfold closeClause at h
  split at h
  · cases h
  · exact hnext _ h

/-- The parse does not end with a node. -/
theorem stepNode_ne_finish {children : List (Node Nat)} :
    stepNode o around children lineStart t ≠ .finish nodes := by
  intro h
  unfold stepNode at h
  split at h
  · unfold stepFallthrough at h
    split at h
    · cases h
    · split at h <;> cases h
  · split at h
    · unfold stepSwitch at h
      split at h
      · cases h
      · split at h
        · cases h
        · split at h <;> cases h
    · split at h
      · unfold stepOutput at h
        split at h <;> cases h
      · simp only [stepText] at h
        split at h <;> cases h

/-- A parse ends in the body outside of all switches, when nothing but white space is left. -/
theorem exists_body_of_finish (h : step o stage t = .finish nodes) :
    (∃ lineStart, stage = .body [] nodes lineStart) ∧ t.skipWhiteSpace.chars = [] := by
  cases stage with
  | body around children lineStart =>
    simp only [step, stepBody] at h
    cases around with
    | nil =>
      simp only at h
      split at h
      next hempty =>
        cases h
        exact ⟨⟨lineStart, rfl⟩, List.isEmpty_iff.1 hempty⟩
      next => exact absurd h stepNode_ne_finish
    | cons frame outer =>
      simp only at h
      split at h
      · exact absurd h (closeClause_ne_finish fun _ => closeBlock_ne_finish)
      · split at h
        · exact absurd h (closeClause_ne_finish fun _ => openClause_ne_finish)
        · split at h
          · split at h
            · cases h
            · exact absurd h (closeClause_ne_finish fun _ => closeBlock_ne_finish)
          · exact absurd h stepNode_ne_finish
  | block around block =>
    simp only [step, stepBlock] at h
    split at h
    · exact absurd h openClause_ne_finish
    · exact absurd h closeBlock_ne_finish

/-! ## Where a parse stands -/

/-- The switch has been opened right in front of `cs`: it has no clauses yet, and the line of its
header ends there. -/
structure Block.OpenedAt (source : List Char) (block : Block) (cs : List Char) : Prop where
  no_clauses : block.clauses = []
  header : ∃ text tag, text <:+ source ∧ ReadsSwitchHeader text tag cs ∧
    block.tag = tag.map (placeIn (byteLength source))

/-- A parse stands at an end of its source, and in front of a first clause it has just opened the
switch. -/
structure Stage.StandsAt (source : List Char) (stage : Stage) (t : Tail) : Prop
    extends t.EndOf source where
  opened : ∀ around block, stage = .block around block → block.OpenedAt source t.chars

theorem Stage.standsAt_initial (source : List Char) :
    Stage.initial.StandsAt source (.start source) :=
  ⟨⟨Tail.fits_start source, List.suffix_rfl⟩, nofun⟩

/-- Where a parse stands behind a step. -/
theorem Stage.StandsAt.next (hstage : stage.StandsAt source t)
    (h : step o stage t = .advance events stage' rest) : stage'.StandsAt source rest := by
  obtain ⟨hfits, hadvances⟩ := Advances.of_step hstage.fits h
  refine ⟨⟨hfits, hadvances.suffix.trans hstage.suffix⟩, fun around' block' hblock => ?_⟩
  cases hadvances with
  | opens _ hheader _ =>
    cases hblock
    exact ⟨rfl, _, _, (hstage.skipWhile isWhiteSpace).suffix, hheader, rfl⟩
  | leaf | firstClause | nextClause | closesEmpty | closes => cases hblock

end SwitchMarkup

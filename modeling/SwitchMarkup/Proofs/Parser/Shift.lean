import SwitchMarkup.Parser.Run
import SwitchMarkup.Proofs.Template.Map

/-!
# A parse further on in a source

What a step does is decided by the characters of its tail; the offset only goes into places. And no
step looks at the nodes of the top level that it goes on from. So a parse that begins at a later
offset, behind nodes that are complete, takes the same steps: it ends with the same nodes behind
those, or with the same failure, each place moved along. Main statement: `run_behind`.
-/

namespace SwitchMarkup

variable {n offset : Nat} {word : List Char} {t : Tail} {o : Options} {before : List (Node Nat)}

/-! ## Tails and extractions -/

/-- The same characters at an offset that is `n` bytes further on. -/
def Tail.shift (n : Nat) (t : Tail) : Tail := ⟨t.offset + n, t.chars⟩

@[simp] theorem Tail.offset_shift : (t.shift n).offset = t.offset + n := rfl

@[simp] theorem Tail.chars_shift : (t.shift n).chars = t.chars := rfl

@[simp] theorem Tail.startsWith_shift : (t.shift n).startsWith word = t.startsWith word := rfl

@[simp] theorem Tail.startsClause_shift : (t.shift n).startsClause = t.startsClause := rfl

@[simp] theorem Tail.atLineBreak_shift : (t.shift n).atLineBreak = t.atLineBreak := rfl

@[simp] theorem Tail.isEmpty_shift : (t.shift n).isEmpty = t.isEmpty := rfl

@[simp] theorem Tail.skipWhile_shift (p : Char → Bool) :
    (t.shift n).skipWhile p = (t.skipWhile p).shift n := by
  rw [Tail.skipWhile, Tail.skipWhile, Tail.shift, Tail.shift, Nat.add_right_comm]

@[simp] theorem Tail.skipBlanks_shift : (t.shift n).skipBlanks = t.skipBlanks.shift n :=
  Tail.skipWhile_shift isBlank

@[simp] theorem Tail.skipWhiteSpace_shift :
    (t.shift n).skipWhiteSpace = t.skipWhiteSpace.shift n :=
  Tail.skipWhile_shift isWhiteSpace

@[simp] theorem Tail.goTo_shift (rest : List Char) :
    (t.shift n).goTo rest = (t.goTo rest).shift n := by
  rw [Tail.goTo, Tail.goTo, Tail.shift, Tail.shift, Nat.add_right_comm]

@[simp] theorem Tail.drop?_shift : (t.shift n).drop? word = (t.drop? word).map (Tail.shift n) := by
  rw [Tail.drop?, Tail.drop?, Tail.startsWith_shift]
  split
  · rw [Option.map_some, Tail.shift, Tail.shift, Nat.add_right_comm]
  · rfl

@[simp] theorem Tail.skipBlanks?_shift :
    (t.shift n).skipBlanks? = t.skipBlanks?.map (Tail.shift n) := by
  rw [Tail.skipBlanks?, Tail.skipBlanks?, Tail.skipBlanks_shift, Tail.chars_shift]
  split
  · rfl
  · rfl

@[simp] theorem Tail.dropLineEnd?_shift :
    (t.shift n).dropLineEnd? = t.dropLineEnd?.map (Tail.shift n) := by
  rw [Tail.dropLineEnd?, Tail.dropLineEnd?, Tail.drop?_shift, Tail.drop?_shift, Option.map_or]

/-- Reading goes on in the same way after a part that has been read in the same way. -/
theorem bind_shift {x : Option Tail} {f : Tail → Option Tail}
    (hf : ∀ u : Tail, f (u.shift n) = (f u).map (Tail.shift n)) :
    (x.map (Tail.shift n)).bind f = (x.bind f).map (Tail.shift n) := by
  cases x with
  | none => rfl
  | some u => exact hf u

@[simp] theorem Tail.dropBlockOpening?_shift :
    (t.shift n).dropBlockOpening? = t.dropBlockOpening?.map (Tail.shift n) := by
  rw [Tail.dropBlockOpening?, Tail.dropBlockOpening?, Tail.skipBlanks_shift, Tail.drop?_shift]
  refine bind_shift fun u => ?_
  rw [Tail.skipBlanks_shift, Tail.dropLineEnd?_shift]

@[simp] theorem Tail.skipHeaderEnd_shift : (t.shift n).skipHeaderEnd = t.skipHeaderEnd.shift n := by
  rw [Tail.skipHeaderEnd, Tail.skipHeaderEnd, Tail.skipBlanks_shift, Tail.dropLineEnd?_shift]
  cases t.skipBlanks.dropLineEnd? with
  | none => rfl
  | some u => rfl

/-- A fragment that begins further on is the fragment further on. -/
theorem Fragment.ofChars_shift (cs : List Char) :
    Fragment.ofChars (offset + n) cs = (Fragment.ofChars offset cs).map (· + n) := by
  rw [Fragment.ofChars, Nat.add_right_comm]
  rfl

/-- A trimmed fragment that begins further on is the fragment further on. -/
theorem Fragment.trimmed_shift (cs : List Char) :
    Fragment.trimmed (offset + n) cs = (Fragment.trimmed offset cs).map (· + n) := by
  rw [Fragment.trimmed, Nat.add_right_comm, Fragment.ofChars_shift]
  rfl

/-- The same extraction, or the same refusal, `n` bytes further on. -/
def shiftExtraction (n : Nat) :
    Except (Failure Nat) Extraction → Except (Failure Nat) Extraction
  | .ok x => .ok ⟨x.expression.map (· + n), x.rest.shift n⟩
  | .error failure => .error (failure.map (· + n))

/-- The header of a `switch` is extracted, or refused, further on as well. -/
theorem extractSwitch_shift :
    extractSwitch (t.shift n) = shiftExtraction n (extractSwitch t) := by
  have hword : ((t.shift n).drop? Keyword.switch).bind Tail.skipBlanks? =
      ((t.drop? Keyword.switch).bind Tail.skipBlanks?).map (Tail.shift n) := by
    rw [Tail.drop?_shift]
    exact bind_shift fun _ => Tail.skipBlanks?_shift
  rw [extractSwitch, extractSwitch, hword]
  cases (t.drop? Keyword.switch).bind Tail.skipBlanks? with
  | none => rfl
  | some u =>
    simp only [Option.map_some, Tail.goTo_shift, Tail.startsWith_shift, Tail.atLineBreak_shift,
      Tail.chars_shift, Tail.offset_shift, Fragment.trimmed_shift]
    split
    · rfl
    · rfl

theorem extractCase_shift : extractCase (t.shift n) = shiftExtraction n (extractCase t) := by
  have hword : ((t.shift n).drop? Keyword.case).bind Tail.skipBlanks? =
      ((t.drop? Keyword.case).bind Tail.skipBlanks?).map (Tail.shift n) := by
    rw [Tail.drop?_shift]
    exact bind_shift fun _ => Tail.skipBlanks?_shift
  have hdefault :
      ((t.shift n).drop? Keyword.default).bind (fun u => u.skipBlanks.drop? [':']) =
        ((t.drop? Keyword.default).bind fun u => u.skipBlanks.drop? [':']).map (Tail.shift n) := by
    rw [Tail.drop?_shift]
    refine bind_shift fun u => ?_
    rw [Tail.skipBlanks_shift, Tail.drop?_shift]
  rw [extractCase, extractCase, hword, hdefault]
  cases (t.drop? Keyword.case).bind Tail.skipBlanks? with
  | none =>
    cases (t.drop? Keyword.default).bind fun u => u.skipBlanks.drop? [':'] with
    | none => rfl
    | some rest =>
      simp only [Option.map_some, Option.map_none, Tail.offset_shift, Fragment.ofChars_shift]
      rfl
  | some u =>
    simp only [Option.map_some, Tail.goTo_shift, Tail.chars_shift, Tail.offset_shift,
      Tail.drop?_shift, Fragment.trimmed_shift]
    split
    · rfl
    · cases (u.goTo (Items.afterItems .list u.chars)).drop? [':'] with
      | none => rfl
      | some rest => rfl

theorem extractFallthrough_shift :
    extractFallthrough (t.shift n) = shiftExtraction n (extractFallthrough t) := by
  rw [extractFallthrough, extractFallthrough, Tail.drop?_shift]
  cases t.drop? Keyword.fallthrough with
  | none => rfl
  | some u =>
    simp only [Option.map_some, Tail.skipBlanks_shift, Tail.atLineBreak_shift, Tail.offset_shift,
      Fragment.ofChars_shift]
    split
    · rfl
    · rfl

/-- An expression in braces is extracted, or refused, further on as well. -/
theorem extractOutput_shift :
    extractOutput (t.shift n) = shiftExtraction n (extractOutput t) := by
  rw [extractOutput, extractOutput, Tail.drop?_shift]
  cases t.drop? ['\x7b'] with
  | none => rfl
  | some u =>
    simp only [Option.map_some, Tail.goTo_shift, Tail.chars_shift, Tail.offset_shift,
      Tail.drop?_shift, Fragment.trimmed_shift]
    cases (u.goTo (Items.afterItems .braced u.chars)).drop? ['\x7d'] with
    | none => rfl
    | some rest =>
      -- The value is the same, so it is empty here exactly when it is empty there.
      show (if (Fragment.trimmed u.offset _).value.isEmpty then _ else _) =
        shiftExtraction n (if (Fragment.trimmed u.offset _).value.isEmpty then _ else _)
      split
      · rfl
      · rfl

/-! ## Stages -/

/-- The nodes of a body inside the switches `around`, `n` bytes further on. Those of the top level
stand behind `before`. -/
def nodesBehind (n : Nat) (before : List (Node Nat)) (around : List Frame)
    (nodes : List (Node Nat)) : List (Node Nat) :=
  match around with
  | [] => before ++ Template.map (· + n) nodes
  | _ :: _ => Template.map (· + n) nodes

/-- An open switch inside the switches `around`, `n` bytes further on. -/
def Block.behind (n : Nat) (before : List (Node Nat)) (around : List Frame) (block : Block) :
    Block :=
  ⟨nodesBehind n before around block.before, block.start + n, block.tag.map (· + n),
    Clause.mapAll (· + n) block.clauses⟩

/-- The frame of a switch inside the switches `around`, `n` bytes further on. -/
def Frame.behind (n : Nat) (before : List (Node Nat)) (around : List Frame) (frame : Frame) :
    Frame :=
  ⟨frame.block.behind n before around, frame.header.map (· + n)⟩

/-- Open switches, `n` bytes further on and the outermost one behind the nodes `before`. -/
def framesBehind (n : Nat) (before : List (Node Nat)) : List Frame → List Frame
  | [] => []
  | frame :: outer => frame.behind n before outer :: framesBehind n before outer

/-- The same stage, `n` bytes further on and behind the nodes `before` of the top level. -/
def Stage.behind (n : Nat) (before : List (Node Nat)) : Stage → Stage
  | .body around nodes lineStart =>
    .body (framesBehind n before around) (nodesBehind n before around nodes) lineStart
  | .block around switch => .block (framesBehind n before around) (switch.behind n before around)

/-- The same report, `n` bytes further on. -/
def Event.shift (n : Nat) : Event → Event
  | .parsedSwitch tag clauses depth => .parsedSwitch tag clauses depth
  | .rewound reached resumed => .rewound (reached + n) (resumed + n)

/-- The same step, `n` bytes further on and behind the nodes `before` of the top level. -/
def Step.behind (n : Nat) (before : List (Node Nat)) : Step → Step
  | .advance events stage rest =>
    .advance (events.map (Event.shift n)) (stage.behind n before) (rest.shift n)
  | .finish nodes => .finish (before ++ Template.map (· + n) nodes)
  | .fail events failure => .fail (events.map (Event.shift n)) (failure.map (· + n))

variable {around : List Frame} {nodes : List (Node Nat)} {block : Block} {lineStart : Bool}

@[simp] theorem length_framesBehind : (framesBehind n before around).length = around.length := by
  induction around with
  | nil => rfl
  | cons frame outer ih => exact congrArg (· + 1) ih

@[simp] theorem isEmpty_framesBehind :
    (framesBehind n before around).isEmpty = around.isEmpty := by
  cases around with
  | nil => rfl
  | cons frame outer => rfl

/-- Nodes that are added further on come behind the nodes of the top level. -/
theorem nodesBehind_append (more : List (Node Nat)) :
    nodesBehind n before around (nodes ++ more) =
      nodesBehind n before around nodes ++ Template.map (· + n) more := by
  cases around with
  | nil => rw [nodesBehind, nodesBehind, Template.map_append, List.append_assoc]
  | cons frame outer => rw [nodesBehind, nodesBehind, Template.map_append]

/-- A switch that is closed further on is added behind the nodes of the top level. -/
theorem Block.close_behind (stop : Nat) :
    (block.behind n before around).close (stop + n) =
      nodesBehind n before around (block.close stop) := by
  rw [Block.close, Block.close, nodesBehind_append]
  rfl

/-- A clause that is finished further on is the same clause further on. -/
theorem Frame.finish_behind (frame : Frame) (children : List (Node Nat)) :
    (frame.behind n before around).finish (Template.map (· + n) children) =
      (frame.finish children).behind n before around := by
  rw [Frame.finish, Frame.finish, Frame.behind, Block.behind, Block.behind, Clause.mapAll_append]
  rfl

/-! ## Steps -/

/-- A clause is opened further on by the same step. -/
theorem openClause_behind :
    openClause (framesBehind n before around) (block.behind n before around) (t.shift n) =
      (openClause around block t).behind n before := by
  rw [openClause, openClause, extractCase_shift, Tail.startsWith_shift]
  cases extractCase t with
  | error failure => rfl
  | ok x =>
    simp only [shiftExtraction, Tail.skipHeaderEnd_shift]
    split
    · rfl
    · rfl

/-- A block is closed further on by the same step, and reported as before. -/
theorem closeBlock_behind (events : List Event) :
    closeBlock o (framesBehind n before around) (block.behind n before around)
        (events.map (Event.shift n)) (t.shift n) =
      (closeBlock o around block events t).behind n before := by
  have hfinal : o.enforced (finalFallthrough? (block.behind n before around).clauses) =
      (o.enforced (finalFallthrough? block.clauses)).map (· + n) := by
    rw [← Options.enforced_map, ← finalFallthrough?_map]
    rfl
  rw [closeBlock, closeBlock, hfinal]
  cases o.enforced (finalFallthrough? block.clauses) with
  | some place => rfl
  | none =>
    rw [Option.map_none, Tail.drop?_shift]
    cases t.drop? ['\x7d'] with
    | none => rfl
    | some rest =>
      simp only [Option.map_some, Step.behind, Stage.behind, List.map_append, List.map_cons,
        List.map_nil, Event.shift, length_framesBehind, Tail.offset_shift, Block.close_behind]
      simp only [Block.behind, Clause.length_mapAll, Fragment.map]

/-- A clause ends further on by the same step if the step behind it is the same. -/
theorem closeClause_behind (frame : Frame) (children : List (Node Nat)) {next next' : Block → Step}
    (h : ∀ block : Block, next' (block.behind n before around) = (next block).behind n before) :
    closeClause o (frame.behind n before around) (Template.map (· + n) children) next' =
      (closeClause o frame children next).behind n before := by
  rw [closeClause, closeClause, earlyFallthrough?_map, Options.enforced_map]
  cases o.enforced (earlyFallthrough? children) with
  | some place => rfl
  | none =>
    rw [Option.map_none, Frame.finish_behind]
    exact h (frame.finish children)

/-- Between two clauses the step is the same further on. -/
theorem stepBlock_behind :
    stepBlock o (framesBehind n before around) (block.behind n before around) (t.shift n) =
      (stepBlock o around block t).behind n before := by
  simp only [stepBlock, Tail.skipWhiteSpace_shift, Tail.startsClause_shift, Tail.offset_shift,
    Nat.add_right_cancel_iff]
  split
  · exact openClause_behind
  · rw [← closeBlock_behind]
    congr 1
    split
    · rfl
    · rfl

/-- A node is added further on by the same step. -/
theorem addNode_behind (node : Node Nat) :
    addNode (framesBehind n before around) (nodesBehind n before around nodes)
        (node.map (· + n)) (t.shift n) =
      (addNode around nodes node t).behind n before := by
  rw [addNode, addNode, Step.behind, Stage.behind, nodesBehind_append]
  rfl

theorem stepFallthrough_behind :
    stepFallthrough (framesBehind n before around) (nodesBehind n before around nodes)
        (t.shift n) =
      (stepFallthrough around nodes t).behind n before := by
  rw [stepFallthrough, stepFallthrough, extractFallthrough_shift, isEmpty_framesBehind]
  cases extractFallthrough t with
  | error failure => rfl
  | ok x =>
    simp only [shiftExtraction]
    split
    · rfl
    · exact addNode_behind (.fallthrough x.expression)

/-- A block is opened further on by the same step. -/
theorem stepSwitch_behind :
    stepSwitch o (framesBehind n before around) (nodesBehind n before around nodes)
        (t.shift n) =
      (stepSwitch o around nodes t).behind n before := by
  rw [stepSwitch, stepSwitch, extractSwitch_shift, length_framesBehind]
  cases extractSwitch t with
  | error failure => rfl
  | ok x =>
    simp only [shiftExtraction, Tail.dropBlockOpening?_shift]
    cases x.rest.dropBlockOpening? with
    | none => rfl
    | some rest =>
      simp only [Option.map_some]
      cases o.limitReached? around.length with
      | some limit => rfl
      | none => rfl

theorem stepOutput_behind :
    stepOutput (framesBehind n before around) (nodesBehind n before around nodes) (t.shift n) =
      (stepOutput around nodes t).behind n before := by
  rw [stepOutput, stepOutput, extractOutput_shift]
  cases extractOutput t with
  | error failure => rfl
  | ok x => exact addNode_behind (.output x.expression)

/-- Text is read further on by the same step. -/
theorem stepText_behind :
    stepText (framesBehind n before around) (nodesBehind n before around nodes) (t.shift n) =
      (stepText around nodes t).behind n before := by
  simp only [stepText, Tail.chars_shift, Tail.skipWhile_shift, Tail.offset_shift,
    Fragment.ofChars_shift]
  split
  · rfl
  · exact addNode_behind (.text _)

/-- Whatever node a step reads, it is the same step further on. -/
theorem stepNode_behind (around : List Frame) :
    stepNode o (framesBehind n before around) (nodesBehind n before around nodes) lineStart
        (t.shift n) =
      (stepNode o around nodes lineStart t).behind n before := by
  rw [stepNode, stepNode, Tail.startsWith_shift, Tail.startsWith_shift, Tail.startsWith_shift]
  split
  · exact stepFallthrough_behind
  · split
    · exact stepSwitch_behind
    · split
      · exact stepOutput_behind
      · exact stepText_behind

/-- A step within a body is the same further on. -/
theorem stepBody_behind :
    stepBody o (framesBehind n before around) (nodesBehind n before around nodes) lineStart
        (t.shift n) =
      (stepBody o around nodes lineStart t).behind n before := by
  cases around with
  | nil =>
    simp only [stepBody, framesBehind, Tail.chars_shift, Tail.skipWhiteSpace_shift,
      Tail.isEmpty_shift]
    split
    · rfl
    · exact stepNode_behind []
  | cons frame outer =>
    have hclose : ∀ block : Block,
        closeBlock o (framesBehind n before outer) (block.behind n before outer) []
            (t.skipWhiteSpace.shift n) =
          (closeBlock o outer block [] t.skipWhiteSpace).behind n before :=
      fun _ => closeBlock_behind []
    simp only [stepBody, framesBehind, nodesBehind, Tail.chars_shift, Tail.skipWhiteSpace_shift]
    rw [Tail.startsWith_shift, Tail.startsClause_shift, Tail.isEmpty_shift, Template.isEmpty_map]
    split
    · exact closeClause_behind frame nodes hclose
    · split
      · exact closeClause_behind frame nodes fun _ => openClause_behind
      · split
        · split
          · rfl
          · exact closeClause_behind frame nodes hclose
        · exact stepNode_behind (frame :: outer)

/-- A step further on is the same step. -/
theorem step_behind (stage : Stage) :
    step o (stage.behind n before) (t.shift n) = (step o stage t).behind n before := by
  cases stage with
  | body around nodes lineStart => exact stepBody_behind
  | block around block => exact stepBlock_behind

/-! ## Runs -/

/-- The same outcome, `n` bytes further on and behind the nodes `before` of the top level. -/
def Outcome.behind (n : Nat) (before : List (Node Nat)) (x : Outcome Nat) : Outcome Nat :=
  ⟨x.events.map (Event.shift n),
    match x.result with
    | .ok nodes => .ok (before ++ Template.map (· + n) nodes)
    | .error failure => .error (failure.map (· + n))⟩

/-- Events in front of an outcome move along with it. -/
theorem Outcome.after_behind (events : List Event) (x : Outcome Nat) :
    (x.behind n before).after (events.map (Event.shift n)) = (x.after events).behind n before := by
  rw [Outcome.after, Outcome.after, Outcome.behind, Outcome.behind, List.map_append]

/-- A parse from a stage further on comes to the same. -/
theorem run_behind (stage : Stage) (t : Tail) :
    run o (stage.behind n before) (t.shift n) = (run o stage t).behind n before := by
  fun_induction run o stage t with
  | case1 stage t events stage' rest hstep hlt ih =>
    rw [run_eq, step_behind, hstep]
    exact (congrArg (Outcome.after _) ih).trans (Outcome.after_behind ..)
  | case2 stage t nodes hstep =>
    rw [run_eq, step_behind, hstep]
    rfl
  | case3 stage t events failure hstep =>
    rw [run_eq, step_behind, hstep]
    rfl

end SwitchMarkup

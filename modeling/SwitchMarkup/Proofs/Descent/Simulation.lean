import SwitchMarkup.Proofs.Descent.Constructs

/-!
# The recursive descent follows the steps of a parse

Each reader is set beside the steps that read the same construct. A body is one reader and the steps
up to its end; a switch is one reader, and the step that opens it, those of its clauses and the one
that closes it. Nothing a reader does faults on the way, and the fuel lasts as long as it is more
than the number of characters left, since every node and every clause takes some of them. Main
statement: `descendWith_eq`.
-/

namespace SwitchMarkup.Descent

open SwitchMarkup.Descent.Action

variable {source : Source} {o : Options} {t u : Tail} {log : List Event}
  {around outer : List Frame} {frame : Frame} {block : Block} {nodes : List (Node Nat)}
  {body : BodyReader} {n fuel bodyFuel : Nat} {lineStart : Bool}

/-! ## What readers find -/

/-- A node, with which the run goes on in the body that holds it. -/
def AddsNode (source : Source) (o : Options) (around : List Frame) (nodes : List (Node Nat))
    (t : Tail) (a : Option (Node Position)) (u : Tail) (next : Outcome Nat) : Prop :=
  ∃ node, a = some (node.map source.positionAt) ∧ u.chars.length < t.chars.length ∧
    next = (addNode around nodes node u).outcome o

theorem not_addsNode_none (u : Tail) (next : Outcome Nat) :
    ¬AddsNode source o around nodes t none u next := by
  rintro ⟨node, hnone, -⟩
  cases hnone

/-- The end of a body. That of a template is the end of the run; from that of a clause on, the run
goes on in the switch of the clause. -/
inductive EndsAs (source : Source) (o : Options) :
    List Frame → Option (List (Node Position)) → Tail → Outcome Nat → Prop where
  | template (nodes : List (Node Nat)) (u : Tail) :
      EndsAs source o [] (some (Template.map source.positionAt nodes)) u ⟨[], .ok nodes⟩
  | clause (frame : Frame) (outer : List Frame) (nodes : List (Node Nat)) {u : Tail}
      (hu : u.skipWhiteSpace = u) :
      EndsAs source o (frame :: outer) (some (Template.map source.positionAt nodes)) u
        ((closeClause o frame nodes fun block => stepBlock o outer block u).outcome o)
  | missing (frame : Frame) (outer : List Frame) (u : Tail) :
      EndsAs source o (frame :: outer) none u ((Step.refuse u.offset .missingNodes).outcome o)

/-- The reader of a body follows a run from the start of the body up to its end, if fewer than `n`
characters are left. -/
def BodyFollows (source : Source) (o : Options) (n : Nat)
    (body : BodyReader) : Prop :=
  ∀ frame outer t log, t.EndOf source.chars → t.chars.length < n →
    Follows source (outer.length + 1) log (run o (.body (frame :: outer) [] true) t)
      (fun a u next => EndsAs source o (frame :: outer) a u next ∧ u.chars.length ≤ t.chars.length)
      (body.on ⟨⟨source, t.offset⟩, outer.length + 1, log⟩)

/-! ## Clauses -/

/-- A clause, with which the run goes on in its switch. -/
def AddsClause (source : Source) (o : Options) (outer : List Frame) (block : Block) (t : Tail)
    (a : Option (Clause Position)) (u : Tail) (next : Outcome Nat) : Prop :=
  ∃ clause, a = some (clause.map source.positionAt) ∧ u.skipWhiteSpace = u ∧
    u.chars.length < t.chars.length ∧
    next = run o (.block outer { block with clauses := block.clauses ++ [clause] }) u

theorem not_addsClause_none (u : Tail) (next : Outcome Nat) :
    ¬AddsClause source o outer block t none u next := by
  rintro ⟨clause, hnone, -⟩
  cases hnone

/-- What is reported in front of the end of a switch comes first. -/
theorem closeBlock_outcome (hblock : block.clauses = [] ∨ log = []) :
    (closeBlock o outer block log t).outcome o =
      ((closeBlock o outer block [] t).outcome o).after log := by
  rw [closeBlock, closeBlock]
  cases hplace : o.enforced (finalFallthrough? block.clauses) with
  | some place =>
    rcases hblock with hclauses | hlog
    · -- No clause ends with a `fallthrough` if there are no clauses.
      rw [hclauses, Options.enforced] at hplace
      split at hplace
      · cases hplace
      · cases hplace
    · rw [hlog, Outcome.after_nil]
  | none =>
    dsimp only
    cases t.drop? ['\x7d'] with
    | none =>
      rw [Step.outcome, Step.outcome, Outcome.after, List.append_nil]
    | some rest =>
      rw [Step.outcome, Step.outcome, Outcome.after_after]
      rfl

/-- In front of a clause header the run goes on in the body of the clause. -/
theorem run_block_of_clause (hclause : t.skipWhiteSpace.startsClause = true) :
    run o (.block outer block) t = (openClause outer block t.skipWhiteSpace).outcome o := by
  rw [run_eq_outcome, step, stepBlock, if_pos hclause]

/-- Elsewhere it goes on behind the switch, which has to end there. -/
theorem run_block_of_not_clause (hclause : ¬t.skipWhiteSpace.startsClause = true)
    (hblock : block.clauses = [] ∨ t.skipWhiteSpace = t) :
    run o (.block outer block) t =
      ((closeBlock o outer block [] t.skipWhiteSpace).outcome o).after
        (rewind t t.skipWhiteSpace) := by
  rw [run_eq_outcome, step, stepBlock, if_neg hclause, rewind, closeBlock_outcome]
  refine hblock.imp_right fun ht => ?_
  rw [ht, if_pos rfl]

theorem refuseAny_on_none (r : Reader) (cause : Cause) :
    (refuseAny none cause).on r = (.ok ⟨⟩, r) := rfl

theorem refuseAny_on_some (place : Position) (r : Reader) (cause : Cause) :
    (refuseAny (some place) cause).on r = (.error (.failure ⟨place, cause⟩), r) := rfl

/-- The end of its body completes a clause, or shows that there is none. -/
theorem finishClause_follows {header : Header Nat} {children : Option (List (Node Position))}
    {next : Outcome Nat} (hu : u.EndOf source.chars)
    (hend : EndsAs source o (⟨block, header⟩ :: outer) children u next)
    (hlt : u.chars.length < t.chars.length) :
    Follows source (outer.length + 1) log next (AddsClause source o outer block t)
      ((finishClause o (header.map source.positionAt) children).on
        ⟨⟨source, u.offset⟩, outer.length + 1, log⟩) := by
  cases hend with
  | missing => exact .of_refuse (refuseHere_on hu)
  | clause _ _ nodes hwhite =>
    rw [finishClause, earlyFallthrough?_map, Options.enforced_map, closeClause]
    cases o.enforced (earlyFallthrough? nodes) with
    | some place => exact .of_refuse (on_bind_of_error (refuseAny_on_some ..))
    | none =>
      have hrun := run_eq_outcome o (.block outer (Frame.finish ⟨block, header⟩ nodes)) u
      rw [Option.map_none, on_bind_of_ok (refuseAny_on_none ..),
        on_bind_of_ok (skipWhiteSpace_onCursor hu), hwhite]
      exact .of_ok hu (on_pure ..) ⟨⟨header, nodes⟩, rfl, hwhite, hlt, hrun.symm⟩

/-- The reader of a clause follows a run from a place in a block on. -/
theorem readClause_follows (hbody : BodyFollows source o n body) (ht : t.EndOf source.chars)
    (hn : t.chars.length ≤ n) (hclause : t.skipWhiteSpace.startsClause = true) :
    Follows source (outer.length + 1) log (run o (.block outer block) t)
      (AddsClause source o outer block t)
      ((readClause o body).on ⟨⟨source, t.offset⟩, outer.length + 1, log⟩) := by
  rw [run_block_of_clause hclause, openClause]
  cases hx : extractCase t.skipWhiteSpace with
  | error failure =>
    exact .of_failure (attempt_on_error (on_bind_of_error (readHeader_on_error ht hclause hx))) rfl
  | ok x =>
    have hwhite := endOf_skipWhiteSpace ht
    have hrest := endOf_extract .case hwhite hx
    have hend := endOf_skipHeaderEnd hrest
    have hlt : x.rest.skipHeaderEnd.chars.length < t.chars.length := by
      have hheader := (Tail.skipHeaderEnd_suffix x.rest).length_le
      have hread := extractCase_length_lt hx
      have hskipped := (Tail.skipWhile_suffix isWhiteSpace t).length_le
      exact Nat.lt_of_le_of_lt hheader (Nat.lt_of_lt_of_le hread hskipped)
    refine .attempt ?_ not_addsClause_none
    rw [on_bind_of_ok (readHeader_on_ok ht hclause hx)]
    refine .bind (hbody ⟨block, _⟩ outer _ _ hend (Nat.lt_of_lt_of_le hlt hn)) ?_
    rintro children u next log' hu ⟨hends, hle⟩
    exact finishClause_follows hu hends (Nat.lt_of_le_of_lt hle hlt)

theorem readClause_on_none (ht : t.EndOf source.chars)
    (hclause : ¬t.skipWhiteSpace.startsClause = true) {depth : Nat} :
    (readClause o body).on ⟨⟨source, t.offset⟩, depth, log⟩ =
      (.ok none, ⟨⟨source, t.offset⟩, depth,
        log ++ rewind t t.skipWhiteSpace⟩) := by
  refine attempt_on_none_here ht ?_
  rw [on_bind_of_ok (readHeader_on_none ht hclause)]
  rfl

/-- All clauses of a switch, behind which the run has to find its end. -/
def AddsClauses (source : Source) (o : Options) (outer : List Frame) (block : Block) (t : Tail)
    (a : List (Clause Position)) (u : Tail) (next : Outcome Nat) : Prop :=
  ∃ clauses, a = Clause.mapAll source.positionAt clauses ∧ u.chars.length ≤ t.chars.length ∧
    next = (closeBlock o outer { block with clauses := clauses } [] u.skipWhiteSpace).outcome o

/-- The reader of clauses follows a run up to the end of the switch. -/
theorem readClauses_follows (outer : List Frame) (block : Block) (log : List Event)
    (hbody : BodyFollows source o n body) (ht : t.EndOf source.chars)
    (hfuel : t.chars.length < fuel) (hn : t.chars.length ≤ n)
    (hblock : block.clauses = [] ∨ t.skipWhiteSpace = t) :
    Follows source (outer.length + 1) log (run o (.block outer block) t)
      (AddsClauses source o outer block t)
      ((readClauses o body fuel (Clause.mapAll source.positionAt block.clauses)).on
        ⟨⟨source, t.offset⟩, outer.length + 1, log⟩) := by
  induction fuel generalizing t block log with
  | zero => omega
  | succ fuel ih =>
    by_cases hclause : t.skipWhiteSpace.startsClause = true
    · refine .bind (readClause_follows hbody ht hn hclause) ?_
      rintro a u next log' hu ⟨clause, rfl, hwhite, hlt, rfl⟩
      have hrest := ih { block with clauses := block.clauses ++ [clause] } log' hu (by omega)
        (by omega) (.inr hwhite)
      rw [Clause.mapAll_append] at hrest
      refine hrest.mono ?_
      rintro a v next - ⟨clauses, rfl, hle, rfl⟩
      exact ⟨clauses, rfl, Nat.le_trans hle (Nat.le_of_lt hlt), rfl⟩
    · -- The attempt at one more clause goes back over the white space that the run has passed.
      rw [readClauses, on_bind_of_ok (readClause_on_none ht hclause),
        run_block_of_not_clause hclause hblock]
      exact .value ht rfl ⟨block.clauses, rfl, Nat.le_refl _, rfl⟩

/-! ## Switches -/

/-- The reader of the clauses of a switch refuses it where the limit is reached. -/
theorem readBlock_follows (outer : List Frame) (block : Block) (log : List Event)
    (hbody : BodyFollows source o n body) (ht : t.EndOf source.chars)
    (hfuel : t.chars.length < fuel) (hn : t.chars.length ≤ n)
    (hstart : source.isBoundary block.start = true) (hclauses : block.clauses = []) :
    Follows source (outer.length + 1) log
      ((match o.limitReached? outer.length with
        | some limit => Step.refuse block.start (.nestingTooDeep limit)
        | none => .advance [] (.block outer block) t).outcome o)
      (AddsClauses source o outer block t)
      ((readBlock o body fuel block.start).on
        ⟨⟨source, t.offset⟩, outer.length + 1, log⟩) := by
  -- The reader counts this switch as open already, the run only those around it.
  have hlimit : (o.maxDepth.filter fun limit => limit < outer.length + 1) =
      o.limitReached? outer.length := by
    simp only [Options.limitReached?, Nat.lt_succ_iff]
  rw [readBlock, on_bind_of_ok (on_get _)]
  dsimp only
  rw [hlimit]
  cases o.limitReached? outer.length with
  | some limit => exact .of_refuse (refuseAt_onCursor hstart rfl)
  | none =>
    have hrest := readClauses_follows outer block log hbody ht hfuel hn (.inl hclauses)
    rw [hclauses] at hrest
    exact hrest

/-- The closing brace completes a switch, with which the run goes on in the body around it. -/
theorem finishSwitch_follows (block : Block) {clauses : List (Clause Nat)}
    (hu : u.EndOf source.chars) (hstart : source.isBoundary block.start = true)
    (hlt : u.chars.length < t.chars.length) :
    Follows source around.length log
      ((closeBlock o around { block with clauses := clauses } [] u.skipWhiteSpace).outcome o)
      (AddsNode source o around block.before t)
      ((finishSwitch o block.start (block.tag.map source.positionAt)
        (Clause.mapAll source.positionAt clauses)).on
          ⟨⟨source, u.offset⟩, around.length, log⟩) := by
  have hwhite := endOf_skipWhiteSpace hu
  rw [finishSwitch, finalFallthrough?_map, Options.enforced_map, closeBlock]
  dsimp only
  cases o.enforced (finalFallthrough? clauses) with
  | some place => exact .of_refuse (on_bind_of_error (refuseAny_on_some ..))
  | none =>
    rw [Option.map_none, on_bind_of_ok (refuseAny_on_none ..),
      on_bind_of_ok (skipWhiteSpace_onCursor hu)]
    cases hclose : u.skipWhiteSpace.drop? ['\x7d'] with
    | none =>
      rw [on_bind_of_ok (onCursor_on (consume_on_of_none (tail?_mk hwhite) hclose)),
        if_neg Bool.false_ne_true]
      exact .of_refuse (refuseHere_on hwhite)
    | some rest =>
      have hrest := hwhite.drop? hclose
      have hshorter : rest.chars.length < t.chars.length := by
        have hbrace := Tail.length_drop?_lt hclose (by decide)
        have hskipped := (Tail.skipWhile_suffix isWhiteSpace u).length_le
        exact Nat.lt_trans (Nat.lt_of_lt_of_le hbrace hskipped) hlt
      rw [on_bind_of_ok (onCursor_on (consume_on_of_some (tail?_mk hwhite) hclose)), if_pos rfl,
        on_bind_of_ok (on_get _), on_bind_of_ok (report_on _ _), on_bind_of_ok (here_on _),
        on_bind_of_ok (onCursor_on (spanBetween_on hstart (isBoundary_of_endOf hrest))), on_pure,
        Clause.length_mapAll]
      exact .value hrest rfl
        ⟨.switch block.tag clauses ⟨block.start, rest.offset⟩, rfl, hshorter, rfl⟩

/-- The reader of a switch follows a run over the whole of the switch. -/
theorem readSwitch_follows (hbody : BodyFollows source o n body) (ht : t.EndOf source.chars)
    (hfuel : t.chars.length ≤ fuel) (hn : t.chars.length ≤ n)
    (hswitch : t.startsWith (Keyword.spaced Keyword.switch) = true) :
    Follows source around.length log ((stepSwitch o around nodes t).outcome o)
      (AddsNode source o around nodes t)
      ((readSwitch o body fuel).on ⟨⟨source, t.offset⟩, around.length, log⟩) := by
  refine .attempt ?_ not_addsNode_none
  rw [on_bind_of_ok (here_on _), on_bind_of_ok (startsWith_onCursor ht), if_pos hswitch, stepSwitch]
  cases hx : extractSwitch t with
  | error failure =>
    exact .of_failure
      (on_bind_of_error (readExpression_onCursor_error .switch ht hx)) rfl
  | ok x =>
    have hend := endOf_extract .switch ht hx
    rw [on_bind_of_ok (readExpression_onCursor_ok .switch ht hx)]
    dsimp only
    cases hopen : x.rest.dropBlockOpening? with
    | none =>
      obtain ⟨offset, hconsume⟩ := consumeOpening_on_of_none (tail?_mk hend) hopen
      rw [on_bind_of_ok (onCursor_on hconsume), if_neg Bool.false_ne_true]
      exact .of_refuse (refuseAt_onCursor (isBoundary_of_endOf ht) rfl)
    | some rest =>
      have hrest := endOf_dropBlockOpening? hend hopen
      have hlt : rest.chars.length < t.chars.length := by
        have hopening := (Tail.dropBlockOpening?_suffix hopen).length_le
        exact Nat.lt_of_le_of_lt hopening (extractSwitch_length_lt hx)
      have hblock := readBlock_follows around ⟨nodes, t.offset, x.expression, []⟩ log hbody hrest
        (Nat.lt_of_lt_of_le hlt hfuel) (Nat.le_trans (Nat.le_of_lt hlt) hn)
        (isBoundary_of_endOf ht) rfl
      rw [on_bind_of_ok (onCursor_on (consumeOpening_on_of_some (tail?_mk hend) hopen)), if_pos rfl]
      refine .bind (.deeper hblock) ?_
      rintro a u next log' hu ⟨clauses, rfl, hle, rfl⟩
      exact finishSwitch_follows ⟨nodes, t.offset, x.expression, []⟩ hu
        (isBoundary_of_endOf ht) (Nat.lt_of_le_of_lt hle hlt)

theorem readSwitch_on_none (ht : t.EndOf source.chars)
    (hswitch : ¬t.startsWith (Keyword.spaced Keyword.switch) = true) {depth : Nat} :
    (readSwitch o body fuel).on ⟨⟨source, t.offset⟩, depth, log⟩ =
      (.ok none, ⟨⟨source, t.offset⟩, depth, log⟩) := by
  refine attempt_on_none_here ht ?_
  rw [on_bind_of_ok (here_on _), on_bind_of_ok (startsWith_onCursor ht), if_neg hswitch, on_pure]

/-! ## Nodes -/

/-- A node, or a character that can begin none. -/
def AddsOrRefuses (source : Source) (o : Options) (around : List Frame) (nodes : List (Node Nat))
    (t : Tail) (a : Option (Node Position)) (u : Tail) (next : Outcome Nat) : Prop :=
  AddsNode source o around nodes t a u next ∨
    a = none ∧ u = t ∧ next = (Step.refuse t.offset (.unexpected (t.chars.headD '\x00'))).outcome o

/-- The reader of expressions in braces and of text follows the steps that read these. -/
theorem readContent_follows (ht : t.EndOf source.chars) {depth : Nat} :
    Follows source depth log
      ((if t.startsWith ['\x7b'] then stepOutput around nodes t
        else stepText around nodes t).outcome o)
      (AddsOrRefuses source o around nodes t)
      (readContent.on ⟨⟨source, t.offset⟩, depth, log⟩) := by
  by_cases hbrace : t.startsWith ['\x7b'] = true
  · rw [if_pos hbrace, stepOutput]
    cases hx : extractOutput t with
    | error failure =>
      have herror : readOutput.on ⟨⟨source, t.offset⟩, depth, log⟩ = _ :=
        readMarked_on_error .output ht hbrace hx
      exact .of_failure (on_bind_of_error herror) rfl
    | ok x =>
      have hend := endOf_extract .output ht hx
      have hok : readOutput.on ⟨⟨source, t.offset⟩, depth, log⟩ = _ :=
        readMarked_on_ok .output ht hbrace hx
      refine .of_ok hend ((on_bind_of_ok hok).trans (on_pure ..)) (.inl ?_)
      exact ⟨.output x.expression, rfl, extractOutput_length_lt hx, rfl⟩
  · have hnone : readOutput.on ⟨⟨source, t.offset⟩, depth, log⟩ = _ :=
      readMarked_on_none .output ht hbrace
    rw [if_neg hbrace, readContent, on_bind_of_ok hnone]
    dsimp only
    by_cases hvalue : (trimEnd (t.chars.takeWhile fun c => !endsText c)).isEmpty = true
    · have hstep :
          stepText around nodes t = .refuse t.offset (.unexpected (t.chars.headD '\x00')) :=
        if_pos hvalue
      rw [hstep, on_bind_of_ok (readText_on_none ht hvalue)]
      exact .of_ok ht (on_pure ..) (.inr ⟨rfl, rfl, rfl⟩)
    · have hstep : stepText around nodes t =
          addNode around nodes (.text (.ofChars t.offset
            (trimEnd (t.chars.takeWhile fun c => !endsText c))))
            (t.skipWhile fun c => !endsText c) :=
        if_neg hvalue
      have hlt := (stepText_shortens around nodes t).length_lt hstep
      rw [hstep, on_bind_of_ok (readText_on_some ht hvalue)]
      exact .of_ok (ht.skipWhile _) (on_pure ..) (.inl ⟨_, rfl, hlt, rfl⟩)

theorem extractFallthrough_start {x : Extraction} (hx : extractFallthrough t = .ok x) :
    x.expression.span.start = t.offset := by
  rw [extractFallthrough] at hx
  split at hx
  · exact absurd hx refuse_ne_ok
  · dsimp only at hx
    split at hx
    · cases hx
      rfl
    · exact absurd hx refuse_ne_ok

/-- The reader of a `fallthrough` follows the step that reads one. -/
theorem readStatement_follows_fallthrough (ht : t.EndOf source.chars)
    (hword : t.startsWith Keyword.fallthrough = true) {depth : Nat} :
    Follows source depth log ((stepFallthrough around nodes t).outcome o)
      (AddsNode source o around nodes t)
      ((readStatement o body fuel !around.isEmpty).on ⟨⟨source, t.offset⟩, depth, log⟩) := by
  rw [stepFallthrough]
  cases hx : extractFallthrough t with
  | error failure =>
    have herror : readFallthrough.on ⟨⟨source, t.offset⟩, depth, log⟩ = _ :=
      readMarked_on_error .fallthrough ht hword hx
    exact .of_failure (on_bind_of_error herror) rfl
  | ok x =>
    have hend := endOf_extract .fallthrough ht hx
    have hok : readFallthrough.on ⟨⟨source, t.offset⟩, depth, log⟩ = _ :=
      readMarked_on_ok .fallthrough ht hword hx
    rw [readStatement, on_bind_of_ok hok]
    dsimp only
    cases around with
    | nil =>
      have hindex : (source.positionAt t.offset).index = t.offset :=
        Nat.min_eq_left (offset_le_length ht)
      rw [show (x.expression.map source.positionAt).span.start =
        source.positionAt x.expression.span.start from rfl, extractFallthrough_start hx, hindex]
      exact .of_refuse (refuseAt_onCursor (isBoundary_of_endOf ht) rfl)
    | cons frame outer =>
      refine .of_ok hend (on_pure ..) ?_
      exact ⟨.fallthrough x.expression, rfl, extractFallthrough_length_lt hx, rfl⟩

theorem readStatement_on_none (ht : t.EndOf source.chars) (inClause : Bool)
    (hword : ¬t.startsWith Keyword.fallthrough = true) {depth : Nat} :
    (readStatement o body fuel inClause).on ⟨⟨source, t.offset⟩, depth, log⟩ =
      (readSwitch o body fuel).on ⟨⟨source, t.offset⟩, depth, log⟩ := by
  have hnone : readFallthrough.on ⟨⟨source, t.offset⟩, depth, log⟩ = _ :=
    readMarked_on_none .fallthrough ht hword
  rw [readStatement, on_bind_of_ok hnone]

/-- The reader of a node follows the step that reads one. -/
theorem readNode_follows (hbody : BodyFollows source o n body) (ht : t.EndOf source.chars)
    (hfuel : t.chars.length ≤ fuel) (hn : t.chars.length ≤ n) (lineStart : Bool) :
    Follows source around.length log ((stepNode o around nodes lineStart t).outcome o)
      (AddsOrRefuses source o around nodes t)
      ((readNode o body fuel (!around.isEmpty) lineStart).on
        ⟨⟨source, t.offset⟩, around.length, log⟩) := by
  cases lineStart with
  | false => exact readContent_follows ht
  | true =>
    rw [stepNode, readNode, if_pos rfl, Bool.true_and, Bool.true_and]
    by_cases hword : t.startsWith Keyword.fallthrough = true
    · rw [if_pos hword]
      refine .bind (readStatement_follows_fallthrough ht hword) ?_
      rintro a u next log' hu ⟨node, rfl, hlt, rfl⟩
      exact .of_ok hu (on_pure ..) (.inl ⟨node, rfl, hlt, rfl⟩)
    · rw [if_neg hword]
      by_cases hswitch : t.startsWith (Keyword.spaced Keyword.switch) = true
      · have hread : Follows source around.length log ((stepSwitch o around nodes t).outcome o)
            (AddsNode source o around nodes t)
            ((readStatement o body fuel !around.isEmpty).on
              ⟨⟨source, t.offset⟩, around.length, log⟩) := by
          rw [readStatement_on_none ht _ hword]
          exact readSwitch_follows hbody ht hfuel hn hswitch
        rw [if_pos hswitch]
        refine .bind hread ?_
        rintro a u next log' hu ⟨node, rfl, hlt, rfl⟩
        exact .of_ok hu (on_pure ..) (.inl ⟨node, rfl, hlt, rfl⟩)
      · have hnone : (readStatement o body fuel !around.isEmpty).on
            ⟨⟨source, t.offset⟩, around.length, log⟩ = _ :=
          (readStatement_on_none ht _ hword).trans (readSwitch_on_none ht hswitch)
        rw [if_neg hswitch, on_bind_of_ok hnone]
        exact readContent_follows ht

/-! ## Bodies -/

theorem skipWhiteSpace_skipWhiteSpace (t : Tail) :
    t.skipWhiteSpace.skipWhiteSpace = t.skipWhiteSpace := by
  have hstops := stops_dropWhile isWhiteSpace t.chars
  rw [Tail.skipWhiteSpace, Tail.skipWhile, Tail.skipWhiteSpace]
  show Tail.mk (_ + byteLength ((t.chars.dropWhile isWhiteSpace).takeWhile isWhiteSpace))
    ((t.chars.dropWhile isWhiteSpace).dropWhile isWhiteSpace) = _
  rw [takeWhile_eq_nil hstops, dropWhile_eq_self hstops]
  rfl

/-- In front of a visible character there is nothing to report in a block. -/
theorem stepBlock_of_skipped (hu : u.skipWhiteSpace = u) :
    stepBlock o outer block u =
      if u.startsClause then openClause outer block u else closeBlock o outer block [] u := by
  rw [stepBlock, hu]
  dsimp only
  rw [if_pos rfl]

theorem not_startsClause_of_isEmpty (h : u.isEmpty = true) : ¬u.startsClause = true := by
  rw [Tail.startsClause_iff, List.isEmpty_iff.1 h]
  exact not_opensClause_nil

theorem not_startsClause_of_brace (h : u.startsWith ['\x7d'] = true) : ¬u.startsClause = true := by
  rw [Tail.startsClause_iff]
  exact not_opensClause_of_closes (Tail.startsWith_iff.1 h)

/-- Whether a body ends behind the white space of a tail, in front of the end of the source. -/
def endsBody (around : List Frame) (lineStart : Bool) (t : Tail) : Bool :=
  !around.isEmpty && (t.skipWhiteSpace.startsWith ['\x7d'] ||
    t.atLineStart lineStart && t.skipWhiteSpace.startsClause)

/-- At whichever of its ends the body of a clause is read up to, the run goes on in the switch. -/
theorem stepBody_cons (o : Options) (frame : Frame) (outer : List Frame) (nodes : List (Node Nat))
    (lineStart : Bool) (t : Tail) :
    stepBody o (frame :: outer) nodes lineStart t =
      if endsBody (frame :: outer) lineStart t then
        closeClause o frame nodes fun block => stepBlock o outer block t.skipWhiteSpace
      else if t.skipWhiteSpace.isEmpty then
        if nodes.isEmpty then .refuse t.skipWhiteSpace.offset .missingNodes
        else closeClause o frame nodes fun block => stepBlock o outer block t.skipWhiteSpace
      else stepNode o (frame :: outer) nodes (t.atLineStart lineStart) t.skipWhiteSpace := by
  have hblock : ∀ block, stepBlock o outer block t.skipWhiteSpace =
      if t.skipWhiteSpace.startsClause then openClause outer block t.skipWhiteSpace
      else closeBlock o outer block [] t.skipWhiteSpace :=
    fun _ => stepBlock_of_skipped (skipWhiteSpace_skipWhiteSpace t)
  simp only [stepBody, hblock, endsBody, Tail.atLineStart, List.isEmpty_cons, Bool.not_false,
    Bool.true_and]
  by_cases hbrace : t.skipWhiteSpace.startsWith ['\x7d'] = true
  · rw [if_pos hbrace, hbrace, Bool.true_or, if_pos rfl]
    simp only [if_neg (not_startsClause_of_brace hbrace)]
  · rw [if_neg hbrace, Bool.eq_false_iff.2 hbrace, Bool.false_or]
    by_cases hclause : t.skipWhiteSpace.startsClause = true
    · have hempty : ¬t.skipWhiteSpace.isEmpty = true :=
        fun hempty => not_startsClause_of_isEmpty hempty hclause
      simp only [if_pos hclause, if_neg hempty]
    · simp only [Bool.eq_false_iff.2 hclause, Bool.and_false, if_neg Bool.false_ne_true]

/-- Where a body ends the run goes on as the end of the body says. -/
theorem stepBody_endsAs (h : endsBody around lineStart t = true) :
    EndsAs source o around (some (Template.map source.positionAt nodes)) t.skipWhiteSpace
      ((stepBody o around nodes lineStart t).outcome o) := by
  cases around with
  | nil => cases h
  | cons frame outer =>
    rw [stepBody_cons, if_pos h]
    exact .clause frame outer nodes (skipWhiteSpace_skipWhiteSpace t)

/-- At the end of the source a body ends as well, and a clause may then be without nodes. -/
theorem stepBody_endsAs_of_isEmpty (h : ¬endsBody around lineStart t = true)
    (hempty : t.skipWhiteSpace.isEmpty = true) :
    EndsAs source o around
      (if !around.isEmpty && nodes.isEmpty then none
        else some (Template.map source.positionAt nodes))
      t.skipWhiteSpace ((stepBody o around nodes lineStart t).outcome o) := by
  cases around with
  | nil =>
    simp only [stepBody]
    rw [if_pos hempty]
    exact .template nodes _
  | cons frame outer =>
    rw [stepBody_cons, if_neg h, if_pos hempty, List.isEmpty_cons, Bool.not_false, Bool.true_and]
    by_cases hnodes : nodes.isEmpty = true
    · rw [if_pos hnodes, if_pos hnodes]
      exact .missing frame outer _
    · rw [if_neg hnodes, if_neg hnodes]
      exact .clause frame outer nodes (skipWhiteSpace_skipWhiteSpace t)

/-- Where a body does not end a step within it reads a node behind the white space. -/
theorem stepBody_eq_stepNode (h : ¬endsBody around lineStart t = true)
    (hempty : ¬t.skipWhiteSpace.isEmpty = true) :
    stepBody o around nodes lineStart t =
      stepNode o around nodes (t.atLineStart lineStart) t.skipWhiteSpace := by
  cases around with
  | nil =>
    simp only [stepBody]
    rw [if_neg hempty]
    rfl
  | cons frame outer => rw [stepBody_cons, if_neg h, if_neg hempty]

/-- The reader of nodes follows a run up to the end of the body. -/
theorem readNodes_follows (around : List Frame) (nodes : List (Node Nat)) (lineStart : Bool)
    (log : List Event) (hbody : BodyFollows source o n body) (ht : t.EndOf source.chars)
    (hfuel : t.chars.length < fuel) (hbodyFuel : t.chars.length ≤ bodyFuel)
    (hn : t.chars.length ≤ n) :
    Follows source around.length log (run o (.body around nodes lineStart) t)
      (fun a u next => EndsAs source o around a u next ∧ u.chars.length ≤ t.chars.length)
      ((readNodes o body bodyFuel (!around.isEmpty) fuel (Template.map source.positionAt nodes)
        lineStart).on ⟨⟨source, t.offset⟩, around.length, log⟩) := by
  induction fuel generalizing t nodes lineStart log with
  | zero => omega
  | succ fuel ih =>
    have hwhite := endOf_skipWhiteSpace ht
    have hle : t.skipWhiteSpace.chars.length ≤ t.chars.length :=
      (Tail.skipWhile_suffix isWhiteSpace t).length_le
    have hend : (onCursor (atBodyEnd (!around.isEmpty)
        (lineStart || (t.chars.takeWhile isWhiteSpace).contains '\n'))).on
          ⟨⟨source, t.skipWhiteSpace.offset⟩, around.length, log⟩ =
        (.ok (endsBody around lineStart t),
          ⟨⟨source, t.skipWhiteSpace.offset⟩, around.length, log⟩) :=
      onCursor_on (atBodyEnd_on (tail?_mk hwhite) ..)
    rw [readNodes, on_bind_of_ok (onCursor_on (skipLines_on ht)), on_bind_of_ok hend,
      run_eq_outcome, step]
    by_cases hends : endsBody around lineStart t = true
    · rw [if_pos hends]
      exact .of_ok hwhite (on_pure ..) ⟨stepBody_endsAs hends, hle⟩
    · rw [if_neg hends, on_bind_of_ok (on_get _), isAtEnd_eq hwhite]
      by_cases hempty : t.skipWhiteSpace.isEmpty = true
      · rw [if_pos hempty, Template.isEmpty_map]
        exact .of_ok hwhite (on_pure ..) ⟨stepBody_endsAs_of_isEmpty hends hempty, hle⟩
      · rw [if_neg hempty, stepBody_eq_stepNode hends hempty]
        refine .bind (readNode_follows hbody hwhite (Nat.le_trans hle hbodyFuel)
          (Nat.le_trans hle hn) (t.atLineStart lineStart)) ?_
        rintro a u next log' hu (⟨node, rfl, hlt, rfl⟩ | ⟨rfl, rfl, rfl⟩)
        · have hshorter := Nat.lt_of_lt_of_le hlt hle
          -- the node has taken a character, so there is fuel for the rest
          have hrest := ih (nodes ++ [node]) false log' hu (by omega) (by omega) (by omega)
          rw [Template.map_append] at hrest
          refine hrest.mono ?_
          rintro a v next - ⟨hends, hle⟩
          exact ⟨hends, Nat.le_trans hle (Nat.le_of_lt hshorter)⟩
        · dsimp only
          rw [on_bind_of_ok (onCursor_on (remaining_on (tail?_mk hwhite)))]
          exact .of_refuse (refuseHere_on hwhite)

/-- Bodies inside of one another are read to their ends, each with less fuel than the one around
it. -/
theorem readBody_follows (source : Source) (o : Options) (fuel : Nat) :
    BodyFollows source o fuel (readBody o fuel true) := by
  induction fuel with
  | zero =>
    intro frame outer t log _ hlt
    exact absurd hlt (Nat.not_lt_zero _)
  | succ fuel ih =>
    intro frame outer t log ht hlt
    -- A body inside begins with fewer characters left, so that the fuel less one is enough there.
    have hle := Nat.le_of_lt_succ hlt
    exact readNodes_follows (frame :: outer) [] true log ih ht hlt hle hle

/-! ## Whole sources -/

/-- With more fuel than there are characters a source is read without a fault, and what is found and
reported is what the steps of a parse find and report. -/
theorem descendWith_eq (source : Source) (o : Options) {fuel : Nat}
    (h : source.chars.length < fuel) :
    descendWith fuel source o = .ok ((readSource o source.chars).map source.positionAt) := by
  obtain ⟨fuel, rfl⟩ := Nat.exists_eq_succ_of_ne_zero (Nat.ne_zero_of_lt h)
  have hle := Nat.le_of_lt_succ h
  have hread : Follows source 0 [] (readSource o source.chars)
      (fun a u next => EndsAs source o [] a u next ∧ u.chars.length ≤ source.chars.length)
      ((readBody o (fuel + 1) false).on { cursor := .start source }) :=
    readNodes_follows [] [] true [] (readBody_follows source o fuel) (endOf_start source.chars) h
      hle hle
  rw [descendWith]
  generalize (readBody o (fuel + 1) false).on { cursor := .start source } = result at hread ⊢
  cases hread with
  | value hu hm hpost =>
    obtain ⟨hends, -⟩ := hpost
    cases hends
    rw [hm, Outcome.after, List.append_nil]
    rfl
  | failure hm =>
    rw [hm]
    rfl

end SwitchMarkup.Descent

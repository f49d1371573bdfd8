import SwitchMarkup.Parser.Run
import SwitchMarkup.Proofs.Template.Misplacements
import SwitchMarkup.Template.Equality

/-!
# What checking the placement does

The rules on `fallthrough` are checked in the midst of a parse, whenever a clause or a switch is
complete. A parse that checks them takes the steps of one that does not, up to the first clause or
switch that breaks a rule, and there it fails. What breaks a rule is found in the order in which
clauses and switches are completed, so that this failure is the first of the misplaced fallthroughs
of the template. Main statement: `parse_placement`.
-/

namespace SwitchMarkup

variable {π ρ : Type} {limit : Option Nat} {found : List (Failure Nat)} {around : List Frame}
  {nodes : List (Node Nat)} {block : Block} {lineStart : Bool} {stage : Stage} {t : Tail}

/-! ## The misplaced fallthroughs found so far -/

/-- The misplaced fallthroughs in front of a switch and in its complete clauses. -/
def Block.misplacements (block : Block) : List (Failure Nat) :=
  Template.misplacements block.before ++ Clause.misplacements block.clauses

/-- The misplaced fallthroughs that have been found outside the body that is being read. -/
def framesMisplacements : List Frame → List (Failure Nat)
  | [] => []
  | frame :: outer => framesMisplacements outer ++ frame.block.misplacements

/-- The misplaced fallthroughs of all clauses and switches that are complete. -/
def Stage.misplacements : Stage → List (Failure Nat)
  | .body around nodes _ => framesMisplacements around ++ Template.misplacements nodes
  | .block around block => framesMisplacements around ++ block.misplacements

/-- The misplaced fallthroughs that have been found after a step, if it is not refused. -/
def Step.misplacements? : Step → Option (List (Failure Nat))
  | .advance _ stage _ => some stage.misplacements
  | .finish nodes => some (Template.misplacements nodes)
  | .fail _ _ => none

/-- The step fails, or it finds no more than has been found. -/
def Step.Keeps (found : List (Failure Nat)) (step : Step) : Prop :=
  ∀ later ∈ step.misplacements?, later = found

theorem Step.keeps_fail {events : List Event} {failure : Failure Nat} :
    (Step.fail events failure).Keeps found := by
  intro later hlater
  cases hlater

/-! ## One step and its check -/

/-- One of the two rules is broken. -/
def Cause.BreaksRule (cause : Cause) : Prop :=
  cause = .fallthroughNotLast ∨ cause = .fallthroughInFinalCase

/-- What checking makes of a step from a stage where `found` has been found: a step that finds no
more stays as it is, one that finds more is refused with the first of it, and one that fails
fails. -/
inductive Step.Checks (found : List (Failure Nat)) : Step → Step → Prop where
  | same {free : Step} (h : free.misplacements? = some found) : Checks found free free
  | refused {free : Step} {failure : Failure Nat} {more : List (Failure Nat)}
      (h : free.misplacements? = some (found ++ failure :: more))
      (hcause : failure.cause.BreaksRule) : Checks found free (.fail [] failure)
  | failed {events events' : List Event} {failure failure' : Failure Nat}
      (h : failure' = failure ∨ failure'.cause.BreaksRule) :
      Checks found (.fail events failure) (.fail events' failure')

namespace Step.Checks

variable {free checked : Step} {failure : Failure Nat} {more : List (Failure Nat)}

/-- A step that finds nothing needs no check. -/
theorem of_keeps (h : free.Keeps found) : Checks found free free := by
  cases hfree : free with
  | fail events failure => exact .failed (.inl rfl)
  | advance | finish =>
    subst hfree
    exact .same (congrArg some (h _ rfl))

/-- A misplaced `fallthrough` that is found first is what the step is refused with. -/
theorem refuse (h : Checks (found ++ failure :: more) free checked)
    (hcause : failure.cause.BreaksRule) : Checks found free (.fail [] failure) := by
  cases h with
  | same hfree => exact .refused hfree hcause
  | refused hfree _ =>
    rw [List.append_assoc, List.cons_append] at hfree
    exact .refused hfree hcause
  | failed _ => exact .failed (.inr hcause)

/-- A step loses nothing of what has been found. -/
theorem isPrefix (h : Checks found free checked) : ∀ later ∈ free.misplacements?, found <+: later := by
  intro later hlater
  cases h with
  | same hfree =>
    cases hfree.symm.trans hlater
    exact List.prefix_rfl
  | refused hfree _ =>
    cases hfree.symm.trans hlater
    exact List.prefix_append found _
  | failed _ => cases hlater

end Step.Checks

/-! ## Clauses and blocks -/

theorem openClause_keeps :
    (openClause around block t).Keeps (Stage.block around block).misplacements := by
  unfold openClause
  split
  · exact Step.keeps_fail
  · intro later hlater
    cases hlater
    simp [Stage.misplacements, framesMisplacements]

/-- A switch is checked when its clauses end, whether or not its closing brace follows. -/
theorem closeBlock_checks (events : List Event) :
    (closeBlock ⟨limit, false⟩ around block events t).Checks
      (Stage.block around block).misplacements
      (closeBlock ⟨limit, true⟩ around block events t) := by
  unfold closeBlock
  have hfree : Options.enforced ⟨limit, false⟩ (finalFallthrough? block.clauses) = none := rfl
  have hchecked : Options.enforced ⟨limit, true⟩ (finalFallthrough? block.clauses) =
    finalFallthrough? block.clauses := rfl
  have hfinal : finalMisplacements block.clauses = _ := finalMisplacements_eq
  rw [hfree, hchecked]
  cases hplace : finalFallthrough? block.clauses with
  | none =>
    rw [hplace] at hfinal
    refine .of_keeps fun later hlater => ?_
    cases hdrop : t.drop? ['\x7d'] with
    | none =>
      simp only [hdrop] at hlater
      cases hlater
    | some rest =>
      simp only [hdrop] at hlater
      cases hlater
      simp [Stage.misplacements, Block.close, Block.misplacements, Node.misplacements, hfinal]
  | some place =>
    rw [hplace] at hfinal
    cases hdrop : t.drop? ['\x7d'] with
    | none => exact .failed (.inr (.inr rfl))
    | some rest =>
      refine @Step.Checks.refused _ _ _ [] ?_ (.inr rfl)
      simp [Step.misplacements?, Stage.misplacements, Block.close, Block.misplacements,
        Node.misplacements, hfinal]

/-- A clause is checked when its body ends, before anything behind it is read. -/
theorem closeClause_checks {frame : Frame} {children : List (Node Nat)} {next next' : Block → Step}
    (h : ∀ block, (next block).Checks (Stage.block around block).misplacements (next' block)) :
    (closeClause ⟨limit, false⟩ frame children next).Checks
      (Stage.body (frame :: around) children lineStart).misplacements
      (closeClause ⟨limit, true⟩ frame children next') := by
  have hfinish : (Stage.block around (frame.finish children)).misplacements =
      (Stage.body (frame :: around) children lineStart).misplacements ++
        earlyMisplacements children := by
    simp [Stage.misplacements, framesMisplacements, Frame.finish, Block.misplacements]
  have hnext := h (frame.finish children)
  rw [hfinish] at hnext
  have hhead : (earlyMisplacements children).head? = _ := head?_earlyMisplacements
  have hfree : closeClause ⟨limit, false⟩ frame children next = next (frame.finish children) := rfl
  rw [hfree]
  unfold closeClause
  have hchecked : Options.enforced ⟨limit, true⟩ (earlyFallthrough? children) =
    earlyFallthrough? children := rfl
  rw [hchecked]
  cases hplace : earlyFallthrough? children with
  | none =>
    rw [hplace] at hhead
    rw [List.head?_eq_none_iff.1 hhead, List.append_nil] at hnext
    exact hnext
  | some place =>
    rw [hplace] at hhead
    obtain ⟨more, hmore⟩ := List.head?_eq_some_iff.1 hhead
    rw [hmore] at hnext
    exact hnext.refuse (.inl rfl)

/-! ## Nodes -/

theorem addNode_keeps {node : Node Nat} {rest : Tail} (h : node.misplacements = []) :
    (addNode around nodes node rest).Keeps (Stage.body around nodes lineStart).misplacements := by
  intro later hlater
  cases hlater
  simp [Stage.misplacements, h]

/-- A node is read without a check, except that of a switch when it is complete. -/
theorem stepNode_keeps {o : Options} {lineStart' : Bool} :
    (stepNode o around nodes lineStart' t).Keeps
      (Stage.body around nodes lineStart).misplacements := by
  unfold stepNode
  split
  · unfold stepFallthrough
    split
    · exact Step.keeps_fail
    · split
      · exact Step.keeps_fail
      · exact addNode_keeps rfl
  · split
    · unfold stepSwitch
      split
      · exact Step.keeps_fail
      · split
        · exact Step.keeps_fail
        · split
          · exact Step.keeps_fail
          · intro later hlater
            cases hlater
            simp [Stage.misplacements, Block.misplacements]
    · split
      · unfold stepOutput
        split
        · exact Step.keeps_fail
        · exact addNode_keeps rfl
      · simp only [stepText]
        split
        · exact Step.keeps_fail
        · exact addNode_keeps rfl

theorem stepNode_checks {lineStart' : Bool} :
    (stepNode ⟨limit, false⟩ around nodes lineStart' t).Checks
      (Stage.body around nodes lineStart).misplacements
      (stepNode ⟨limit, true⟩ around nodes lineStart' t) :=
  .of_keeps stepNode_keeps

/-! ## Bodies -/

/-- Checking refuses a step within a body just where it ends a clause with an early `fallthrough`,
or a block with a final one. -/
theorem stepBody_checks :
    (stepBody ⟨limit, false⟩ around nodes lineStart t).Checks
      (Stage.body around nodes lineStart).misplacements
      (stepBody ⟨limit, true⟩ around nodes lineStart t) := by
  simp only [stepBody]
  cases around with
  | nil =>
    simp only
    split
    · exact .same rfl
    · exact stepNode_checks
  | cons frame outer =>
    simp only
    split
    · exact closeClause_checks fun _ => closeBlock_checks []
    · split
      · exact closeClause_checks fun _ => .of_keeps openClause_keeps
      · split
        · split
          · exact .failed (.inl rfl)
          · exact closeClause_checks fun _ => closeBlock_checks []
        · exact stepNode_checks

/-- A step is checked against what has been found at its stage. -/
theorem step_checks (limit : Option Nat) (stage : Stage) (t : Tail) :
    (step ⟨limit, false⟩ stage t).Checks stage.misplacements (step ⟨limit, true⟩ stage t) := by
  cases stage with
  | body around nodes lineStart => exact stepBody_checks
  | block around block =>
    simp only [step, stepBlock]
    split
    · exact .of_keeps openClause_keeps
    · exact closeBlock_checks _

/-! ## Runs -/

/-- What has been found stands at the beginning of what breaks a rule in the template. -/
theorem run_misplacements_prefix (limit : Option Nat) (stage : Stage) (t : Tail) :
    ∀ {final}, (run ⟨limit, false⟩ stage t).result = .ok final →
      stage.misplacements <+: Template.misplacements final := by
  fun_induction run ⟨limit, false⟩ stage t with
  | case1 stage t events stage' rest hstep hlt ih =>
    intro final h
    have hchecks := step_checks limit stage t
    rw [hstep] at hchecks
    have hbegins : stage'.misplacements <+: Template.misplacements final := ih h
    exact (hchecks.isPrefix _ rfl).trans hbegins
  | case2 stage t nodes hstep =>
    intro final h
    have hchecks := step_checks limit stage t
    rw [hstep] at hchecks
    cases h
    exact hchecks.isPrefix _ rfl
  | case3 stage t events failure hstep =>
    intro final h
    cases h

/-- What checking makes of a result: it stays as it is when the template has no misplaced
`fallthrough`, and otherwise the parse fails with the first of these; where there is no template
anyway, the parse fails as it does without the checks or at some misplaced `fallthrough`. -/
inductive Validates (free checked : Except (Failure π) (Template π)) : Prop where
  | valid {t : Template π} (hfree : free = .ok t) (hnone : Template.misplacements t = [])
      (hchecked : checked = .ok t)
  | invalid {t : Template π} {failure : Failure π} {more : List (Failure π)}
      (hfree : free = .ok t) (hfirst : Template.misplacements t = failure :: more)
      (hchecked : checked = .error failure)
  | failed {failure failure' : Failure π} (hfree : free = .error failure)
      (hchecked : checked = .error failure')
      (h : failure' = failure ∨ failure'.cause.BreaksRule)

/-- A checked run does what the free run does, or stops at the first misplaced `fallthrough`. The
induction is along the run. -/
theorem run_validates (limit : Option Nat) (stage : Stage) (t : Tail) :
    stage.misplacements = [] →
      Validates (run ⟨limit, false⟩ stage t).result (run ⟨limit, true⟩ stage t).result := by
  fun_induction run ⟨limit, false⟩ stage t with
  | case1 stage t events stage' rest hstep hlt ih =>
    intro hnone
    have hchecks := step_checks limit stage t
    rw [hnone, hstep] at hchecks
    rw [run_eq ⟨limit, true⟩]
    generalize step ⟨limit, true⟩ stage t = checked at hchecks
    cases hchecks with
    | same h => exact ih (Option.some.inj h)
    | @refused _ failure more h hcause =>
      have hfound : stage'.misplacements = failure :: more := Option.some.inj h
      cases hresult : (run ⟨limit, false⟩ stage' rest).result with
      | ok final =>
        -- what the free run finds later comes behind the failure of the checked run
        obtain ⟨later, hlater⟩ := run_misplacements_prefix limit stage' rest hresult
        rw [hfound, List.cons_append] at hlater
        exact .invalid hresult hlater.symm rfl
      | error failure' => exact .failed hresult rfl (.inr hcause)
  | case2 stage t nodes hstep =>
    intro hnone
    have hchecks := step_checks limit stage t
    rw [hnone, hstep] at hchecks
    rw [run_eq ⟨limit, true⟩]
    generalize step ⟨limit, true⟩ stage t = checked at hchecks
    cases hchecks with
    | same h => exact .valid rfl (Option.some.inj h) rfl
    | refused h hcause => exact .invalid rfl (Option.some.inj h) rfl
  | case3 stage t events failure hstep =>
    intro hnone
    have hchecks := step_checks limit stage t
    rw [hstep] at hchecks
    rw [run_eq ⟨limit, true⟩]
    generalize step ⟨limit, true⟩ stage t = checked at hchecks
    cases hchecks with
    | same h => cases h
    | refused h => cases h
    | failed h => exact .failed rfl rfl h

/-! ## Parses -/

/-- The places of a result may be replaced in both. -/
theorem Validates.map {free checked : Except (Failure π) (Template π)} (f : π → ρ)
    (h : Validates free checked) :
    Validates (Outcome.map f ⟨[], free⟩).result (Outcome.map f ⟨[], checked⟩).result := by
  cases h with
  | valid hfree hnone hchecked =>
    subst hfree hchecked
    refine .valid rfl ?_ rfl
    rw [Template.misplacements_map, hnone, List.map_nil]
  | invalid hfree hfirst hchecked =>
    subst hfree hchecked
    have hfirst' := congrArg (List.map (Failure.map f)) hfirst
    rw [← Template.misplacements_map, List.map_cons] at hfirst'
    exact .invalid rfl hfirst' rfl
  | failed hfree hchecked hfailure =>
    subst hfree hchecked
    refine .failed rfl rfl (hfailure.imp ?_ id)
    rintro rfl
    rfl

/-- A checked parse does what the free parse does, or stops at the first misplaced `fallthrough`. -/
theorem parse_validates (source : String) (limit : Option Nat) :
    Validates (parse source ⟨limit, false⟩) (parse source ⟨limit, true⟩) :=
  (run_validates limit .initial (.start source.toList) rfl).map _

/-- Checking the placement refuses exactly the templates in which a rule is broken, each at the
first misplaced `fallthrough` in the order in which clauses and switches are completed; it changes
no other template, and it accepts nothing that is refused without it. -/
theorem parse_placement (source : String) (limit : Option Nat) :
    (∀ failure, parse source { maxDepth := limit, placement := false } = .error failure →
      ∃ failure', parse source { maxDepth := limit } = .error failure' ∧
        (failure' = failure ∨ failure'.cause.BreaksRule)) ∧
    ∀ t, parse source { maxDepth := limit, placement := false } = .ok t →
      (Template.FallthroughsAllowed t → parse source { maxDepth := limit } = .ok t) ∧
      (¬Template.FallthroughsAllowed t →
        ∃ first, (Template.misplacements t).head? = some first ∧
          parse source { maxDepth := limit } = .error first) := by
  have h := parse_validates source limit
  refine ⟨fun failure hfails => ?_, fun t hparse => ?_⟩
  · cases h with
    | valid hfree => cases hfree.symm.trans hfails
    | invalid hfree => cases hfree.symm.trans hfails
    | failed hfree hchecked hfailure =>
      cases hfree.symm.trans hfails
      exact ⟨_, hchecked, hfailure⟩
  · rw [← Template.misplacements_eq_nil_iff]
    cases h with
    | valid hfree hnone hchecked =>
      cases hfree.symm.trans hparse
      exact ⟨fun _ => hchecked, fun hsome => absurd hnone hsome⟩
    | invalid hfree hfirst hchecked =>
      cases hfree.symm.trans hparse
      refine ⟨fun hnone => ?_, fun _ => ⟨_, ?_, hchecked⟩⟩
      · cases hfirst.symm.trans hnone
      · rw [hfirst]
        rfl
    | failed hfree => cases hfree.symm.trans hparse

/-- Of two misplaced fallthroughs, the one inside is reported although it comes second in the
source: its switch is complete before the clause around it. -/
theorem parse_placement_nested :
    ∃ t, parse
        "switch a \x7b\ncase 1:\nfallthrough\nswitch b \x7b\ncase 2:\nfallthrough\n\x7d\n\x7d"
        { placement := false } = .ok t ∧
      ¬Template.FallthroughsAllowed t ∧
      parse "switch a \x7b\ncase 1:\nfallthrough\nswitch b \x7b\ncase 2:\nfallthrough\n\x7d\n\x7d" =
        .error ⟨⟨50, 6, 1⟩, .fallthroughInFinalCase⟩ := by
  have hparse : parse
      "switch a \x7b\ncase 1:\nfallthrough\nswitch b \x7b\ncase 2:\nfallthrough\n\x7d\n\x7d"
      { placement := false } = .ok [
      .switch ⟨"a", ⟨⟨7, 1, 8⟩, ⟨8, 1, 9⟩⟩⟩
        [⟨.case ⟨"1", ⟨⟨16, 2, 6⟩, ⟨17, 2, 7⟩⟩⟩, [
          .fallthrough ⟨"fallthrough", ⟨⟨19, 3, 1⟩, ⟨30, 3, 12⟩⟩⟩,
          .switch ⟨"b", ⟨⟨38, 4, 8⟩, ⟨39, 4, 9⟩⟩⟩
            [⟨.case ⟨"2", ⟨⟨47, 5, 6⟩, ⟨48, 5, 7⟩⟩⟩, [
              .fallthrough ⟨"fallthrough", ⟨⟨50, 6, 1⟩, ⟨61, 6, 12⟩⟩⟩]⟩]
            ⟨⟨31, 4, 1⟩, ⟨63, 7, 2⟩⟩]⟩]
        ⟨⟨0, 1, 1⟩, ⟨65, 8, 2⟩⟩] := by
    decide +kernel
  obtain ⟨-, hchecked⟩ := parse_placement
    "switch a \x7b\ncase 1:\nfallthrough\nswitch b \x7b\ncase 2:\nfallthrough\n\x7d\n\x7d" none
  obtain ⟨-, hrefused⟩ := hchecked _ hparse
  refine ⟨_, hparse, ?_⟩
  rw [← Template.misplacements_eq_nil_iff] at hrefused ⊢
  obtain ⟨first, hfirst, hfails⟩ := hrefused (by decide)
  cases hfirst
  exact ⟨by decide, hfails⟩

end SwitchMarkup

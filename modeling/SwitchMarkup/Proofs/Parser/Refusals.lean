import SwitchMarkup.Proofs.Grammar.Refusal
import SwitchMarkup.Proofs.Parser.Advance
import SwitchMarkup.Proofs.Template.Placement
import SwitchMarkup.Template.Equality

/-!
# Where a parse fails

A parse fails where it stands, at the construct that it cannot read, or back at a `fallthrough` that
it has read before. For the first the stage says enough: a clause can only end at a closing brace, at
a clause header or at the end of the source, text can only be missing in front of a closing brace, and
a switch without clauses has just been opened. For the second the places of all fallthroughs that are
still to be checked have to be kept. Main statement: `parse_error_placed`.
-/

namespace SwitchMarkup

variable {o : Options} {around outer : List Frame} {frame : Frame} {nodes : List (Node Nat)}
  {block : Block} {lineStart : Bool} {stage stage' : Stage} {events : List Event} {t rest : Tail}
  {source : List Char} {s : Step}

/-! ## The fallthroughs that a parse has read -/

/-- The nodes in front of a switch and directly in its complete clauses. -/
def Block.held (block : Block) : List (Node Nat) :=
  block.before ++ block.clauses.flatMap Clause.children

/-- The nodes that are held outside the body that is being read. -/
def framesHeld : List Frame → List (Node Nat)
  | [] => []
  | frame :: outer => framesHeld outer ++ frame.block.held

/-- The nodes that are directly in the open bodies and blocks. -/
def Stage.held : Stage → List (Node Nat)
  | .body around nodes _ => framesHeld around ++ nodes
  | .block around block => framesHeld around ++ block.held

/-- The source has the keyword where the template has it. -/
def KeywordAt (source : List Char) (place : Nat) : Prop :=
  ∃ text, text <:+ source ∧ Keyword.fallthrough <+: text ∧ place = placeIn (byteLength source) text

/-- The fallthroughs among the nodes are where the template has them. -/
def KeepsKeywords (source : List Char) (nodes : List (Node Nat)) : Prop :=
  ∀ keyword, .fallthrough keyword ∈ nodes → KeywordAt source keyword.span.start

theorem keepsKeywords_initial : KeepsKeywords source Stage.initial.held := by
  intro keyword hmem
  cases hmem

/-- The nodes of a body are held directly in the clause that it becomes. -/
theorem held_finish : (Stage.block outer (frame.finish nodes)).held =
    (Stage.body (frame :: outer) nodes lineStart).held := by
  simp [Stage.held, framesHeld, Frame.finish, Block.held]

/-- The clauses of a switch are not held directly any more when it is closed. -/
theorem KeepsKeywords.close {stop : Nat}
    (h : KeepsKeywords source (Stage.block around block).held) :
    KeepsKeywords source (Stage.body around (block.close stop) false).held := by
  intro keyword hmem
  refine h keyword ?_
  rw [Stage.held, Block.close, ← List.append_assoc] at hmem
  rcases List.mem_append.1 hmem with hmem | hmem
  · rcases List.mem_append.1 hmem with hmem | hmem
    · exact List.mem_append_left _ hmem
    · exact List.mem_append_right _ (List.mem_append_left _ hmem)
  · cases List.mem_singleton.1 hmem

/-- A `fallthrough` is read where its keyword stands. -/
theorem ReadsFallthrough.keywordAt {cs rest : List Char} {keyword : Fragment (List Char)}
    (h : ReadsFallthrough cs keyword rest) (hcs : cs <:+ source) :
    KeywordAt source (placeIn (byteLength source) keyword.span.start) := by
  obtain @⟨pad, rest, -, -⟩ := h
  exact ⟨_, hcs, List.prefix_append .., rfl⟩

/-- What a step adds to the nodes that are held stands where the template has it. -/
theorem Advances.keepsKeywords {total : Nat} (h : Advances o total stage t events stage' rest)
    (htotal : total = byteLength source) (ht : t.EndOf source)
    (hstage : KeepsKeywords source stage.held) : KeepsKeywords source stage'.held := by
  subst htotal
  cases h with
  | leaf hnode _ =>
    intro keyword hmem
    rw [Stage.held, ← List.append_assoc] at hmem
    rcases List.mem_append.1 hmem with hmem | hmem
    · exact hstage keyword hmem
    · have hlast := List.mem_singleton.1 hmem
      cases hnode with
      | text | output | switch => cases hlast
      | fallthrough _ _ hread =>
        cases hlast
        exact hread.keywordAt (ht.skipWhile isWhiteSpace).suffix
  | opens => simpa [Stage.held, Block.held] using hstage
  | firstClause => simpa [Stage.held, framesHeld] using hstage
  | nextClause =>
    rw [← held_finish] at hstage
    simpa [Stage.held, framesHeld] using hstage
  | closesEmpty => exact hstage.close
  | closes =>
    rw [← held_finish] at hstage
    exact hstage.close

/-! ## Failures -/

theorem Options.eq_some_of_enforced {π : Type} {misplaced : Option π} {place : π}
    (h : o.enforced misplaced = some place) : misplaced = some place := by
  rw [Options.enforced] at h
  split at h
  · exact h
  · cases h

theorem KeywordAt.placedIn {place : Nat} {cause : Cause} (h : KeywordAt source place)
    (hcause : ∀ before rest, Keyword.fallthrough <+: rest → cause.Blames before rest) :
    Failure.PlacedIn source ⟨place, cause⟩ := by
  obtain ⟨text, htext, hkeyword, rfl⟩ := h
  exact Failure.placedIn_placeIn htext fun before _ => hcause before text hkeyword

/-- If the step fails, it does so at a place of the source where the cause belongs. -/
def Step.FailsIn (source : List Char) (s : Step) : Prop :=
  ∀ events failure, s = .fail events failure → failure.PlacedIn source

theorem Step.failsIn_fail {failure : Failure Nat} (h : failure.PlacedIn source) :
    (Step.fail events failure).FailsIn source := by
  rintro _ _ ⟨⟩
  exact h

theorem Step.failsIn_advance : (Step.advance events stage rest).FailsIn source := nofun

theorem Step.failsIn_finish : (Step.finish nodes).FailsIn source := by
  rintro _ _ ⟨⟩

theorem openClause_failsIn (ht : t.EndOf source) (hopens : OpensClause t.chars) :
    (openClause around block t).FailsIn source := by
  unfold openClause
  split
  next failure hx => exact Step.failsIn_fail (extractCase_placed ht hopens hx)
  next => exact Step.failsIn_advance

/-- A switch that ends without a brace fails where the brace should have been. -/
theorem closeBlock_failsIn (hheld : KeepsKeywords source (Stage.block around block).held)
    (hmissing : ¬['\x7d'] <+: t.chars →
      Failure.PlacedIn source ⟨t.offset, .missingClosingBrace⟩) :
    (closeBlock o around block events t).FailsIn source := by
  unfold closeBlock
  split
  next place hplace =>
    obtain ⟨clause, hclause, keyword, hmem, rfl⟩ :=
      exists_of_finalFallthrough? (Options.eq_some_of_enforced hplace)
    have hkept : .fallthrough keyword ∈ (Stage.block around block).held := by
      refine List.mem_append_right _ (List.mem_append_right _ ?_)
      exact List.mem_flatMap.2 ⟨clause, hclause, hmem⟩
    exact Step.failsIn_fail ((hheld keyword hkept).placedIn fun _ _ h => h)
  next =>
    split
    next hnone => exact Step.failsIn_fail (hmissing (Tail.drop?_eq_none_iff.1 hnone))
    next => exact Step.failsIn_advance

theorem closeClause_failsIn {next : Block → Step}
    (hheld : KeepsKeywords source (Stage.body (frame :: outer) nodes lineStart).held)
    (hnext : (next (frame.finish nodes)).FailsIn source) :
    (closeClause o frame nodes next).FailsIn source := by
  unfold closeClause
  split
  next place hplace =>
    obtain ⟨keyword, hmem, rfl⟩ :=
      exists_of_earlyFallthrough? (Options.eq_some_of_enforced hplace)
    have hkept := hheld keyword (List.mem_append_right _ hmem)
    exact Step.failsIn_fail (hkept.placedIn fun _ _ h => h)
  next => exact hnext

/-- In front of the first clause, everything but white space is in the way of the brace. -/
theorem stepBlock_failsIn (ht : t.EndOf source) (hblock : block.OpenedAt source t.chars)
    (hheld : KeepsKeywords source (Stage.block around block).held) :
    (stepBlock o around block t).FailsIn source := by
  have hu : t.skipWhiteSpace.EndOf source := ht.skipWhile isWhiteSpace
  have hstart : Stops isWhiteSpace t.skipWhiteSpace.chars := stops_dropWhile isWhiteSpace t.chars
  simp only [stepBlock]
  split
  next hopens => exact openClause_failsIn hu (Tail.startsClause_iff.1 hopens)
  next hopens =>
    rw [Tail.startsClause_iff] at hopens
    refine closeBlock_failsIn hheld fun hbrace => hu.placedIn fun before hbefore => ?_
    cases hchars : t.skipWhiteSpace.chars with
    | nil => exact .inl rfl
    | cons c cs =>
      rw [hchars] at hopens hstart hbrace hbefore
      obtain ⟨-, text, tag, htext, hheader, -⟩ := hblock
      have hcut : t.chars = t.chars.takeWhile isWhiteSpace ++ c :: cs := by
        rw [← hchars]
        exact List.takeWhile_append_dropWhile.symm
      rw [hcut] at hheader
      refine .inr ⟨⟨text, tag, _, hbefore ▸ htext, hheader, isRun_takeWhile isWhiteSpace t.chars⟩, c,
        rfl, stops_cons.1 hstart, ?_, hopens⟩
      rintro rfl
      exact hbrace (List.prefix_append ['\x7d'] cs)

/-! ## Nodes that fail -/

theorem stepFallthrough_failsIn (ht : t.EndOf source) (hkeyword : Keyword.fallthrough <+: t.chars) :
    (stepFallthrough around nodes t).FailsIn source := by
  unfold stepFallthrough
  split
  next failure hx => exact Step.failsIn_fail (extractFallthrough_placed ht hkeyword hx)
  next x hx =>
    split
    next =>
      obtain ⟨keyword, hread, hexpr, -⟩ := ReadsFallthrough.of_extractFallthrough ht.fits hx
      rw [hexpr]
      exact Step.failsIn_fail ((hread.keywordAt ht.suffix).placedIn fun _ _ h => h)
    next => exact Step.failsIn_advance

/-- A `switch` fails where its header is not well formed, lacks its opening, or is too deep. -/
theorem stepSwitch_failsIn (ht : t.EndOf source)
    (hkeyword : Keyword.spaced Keyword.switch <+: t.chars) :
    (stepSwitch o around nodes t).FailsIn source := by
  unfold stepSwitch
  split
  next failure hx => exact Step.failsIn_fail (extractSwitch_placed ht hkeyword hx)
  next =>
    split
    next => exact Step.failsIn_fail (ht.placedIn fun _ _ => hkeyword)
    next =>
      split
      next => exact Step.failsIn_fail (ht.placedIn fun _ _ => hkeyword)
      next => exact Step.failsIn_advance

theorem stepOutput_failsIn (ht : t.EndOf source) (hbrace : ['\x7b'] <+: t.chars) :
    (stepOutput around nodes t).FailsIn source := by
  unfold stepOutput
  split
  next failure hx => exact Step.failsIn_fail (extractOutput_placed ht hbrace hx)
  next => exact Step.failsIn_advance

/-- Where text begins with no other visible character, it begins with a closing brace. -/
theorem stepText_failsIn (ht : t.EndOf source) (hstart : Stops isWhiteSpace t.chars)
    (hne : t.chars ≠ []) (hbrace : ¬['\x7b'] <+: t.chars) :
    (stepText around nodes t).FailsIn source := by
  obtain ⟨c, cs, hchars⟩ := List.exists_cons_of_ne_nil hne
  simp only [stepText]
  split
  next hempty =>
    refine Step.failsIn_fail (ht.placedIn fun before _ => ?_)
    rw [hchars] at hstart hbrace hempty ⊢
    have hc : endsText c = true := by
      cases hends : endsText c with
      | true => rfl
      | false =>
        rw [List.takeWhile_cons, hends] at hempty
        exact absurd (List.isEmpty_iff.1 hempty) (trimEnd_ne_nil (stops_cons.1 hstart))
    have hcases : (c = '\x7b' ∨ c = '\x7d') ∨ c = '\n' := by simpa [endsText] using hc
    rcases hcases with (rfl | rfl) | rfl
    · exact absurd (List.prefix_append ['\x7b'] cs) hbrace
    · exact ⟨rfl, List.prefix_append ['\x7d'] cs⟩
    · exact absurd (stops_cons.1 hstart) (by decide)
  next => exact Step.failsIn_advance

/-- Whatever node a step reads, it fails where the cause belongs. -/
theorem stepNode_failsIn (ht : t.EndOf source) (hstart : Stops isWhiteSpace t.chars)
    (hne : t.chars ≠ []) : (stepNode o around nodes lineStart t).FailsIn source := by
  unfold stepNode
  split
  next hword =>
    exact stepFallthrough_failsIn ht (Tail.startsWith_iff.1 (Bool.and_eq_true_iff.1 hword).2)
  next =>
    split
    next hword =>
      exact stepSwitch_failsIn ht (Tail.startsWith_iff.1 (Bool.and_eq_true_iff.1 hword).2)
    next =>
      split
      next hbrace => exact stepOutput_failsIn ht (Tail.startsWith_iff.1 hbrace)
      next hbrace => exact stepText_failsIn ht hstart hne (mt Tail.startsWith_iff.2 hbrace)

/-! ## Bodies that fail -/

/-- A step within a body fails where the cause belongs. -/
theorem stepBody_failsIn (ht : t.EndOf source)
    (hheld : KeepsKeywords source (Stage.body around nodes lineStart).held) :
    (stepBody o around nodes lineStart t).FailsIn source := by
  have hu : t.skipWhiteSpace.EndOf source := ht.skipWhile isWhiteSpace
  have hstart : Stops isWhiteSpace t.skipWhiteSpace.chars := stops_dropWhile isWhiteSpace t.chars
  simp only [stepBody]
  cases around with
  | nil =>
    simp only
    split
    next => exact Step.failsIn_finish
    next hempty => exact stepNode_failsIn hu hstart fun h => hempty (List.isEmpty_iff.2 h)
  | cons frame outer =>
    have hfinish : KeepsKeywords source (Stage.block outer (frame.finish nodes)).held := by
      rw [held_finish]
      exact hheld
    simp only
    split
    next hbrace =>
      refine closeClause_failsIn hheld (closeBlock_failsIn hfinish fun hmissing => ?_)
      exact absurd (Tail.startsWith_iff.1 hbrace) hmissing
    next =>
      split
      next hclause =>
        have hopens := Tail.startsClause_iff.1 (Bool.and_eq_true_iff.1 hclause).2
        exact closeClause_failsIn hheld (openClause_failsIn hu hopens)
      next =>
        split
        next hempty =>
          have hend : ∀ before, before ++ t.skipWhiteSpace.chars = source →
              t.skipWhiteSpace.chars = [] := fun _ _ => List.isEmpty_iff.1 hempty
          split
          next => exact Step.failsIn_fail (hu.placedIn hend)
          next =>
            refine closeClause_failsIn hheld (closeBlock_failsIn hfinish fun _ => ?_)
            exact hu.placedIn fun before hbefore => .inl (hend before hbefore)
        next hempty => exact stepNode_failsIn hu hstart fun h => hempty (List.isEmpty_iff.2 h)

/-- Every step fails where the cause belongs. -/
theorem step_failsIn (hstage : stage.StandsAt source t) (hheld : KeepsKeywords source stage.held) :
    (step o stage t).FailsIn source := by
  cases stage with
  | body around nodes lineStart => exact stepBody_failsIn hstage.toEndOf hheld
  | block around block => exact stepBlock_failsIn hstage.toEndOf (hstage.opened _ _ rfl) hheld

/-! ## Runs and parses that fail -/

/-- A whole run fails where the cause belongs, by induction along the run. -/
theorem run_placed (o : Options) (stage : Stage) (t : Tail) :
    stage.StandsAt source t → KeepsKeywords source stage.held →
      ∀ {failure}, (run o stage t).result = .error failure → failure.PlacedIn source := by
  fun_induction run o stage t with
  | case1 stage t events stage' rest hstep hlt ih =>
    intro hstage hheld failure h
    obtain ⟨-, hadvances⟩ := Advances.of_step hstage.fits hstep
    exact ih (hstage.next hstep) (hadvances.keepsKeywords rfl hstage.toEndOf hheld) h
  | case2 stage t nodes hstep =>
    intro hstage hheld failure h
    cases h
  | case3 stage t events failure hstep =>
    intro hstage hheld failure h
    cases h
    exact step_failsIn hstage hheld _ _ hstep

/-! ## Messages and hints -/

theorem getLast?_of_suffix {α : Type} {cs ds : List α} (h : cs <:+ ds) (hne : cs ≠ []) :
    ds.getLast? = cs.getLast? := by
  obtain ⟨front, rfl⟩ := h
  rw [List.getLast?_append, List.getLast?_eq_some_getLast hne]
  rfl

/-- A message ends as its last part does. -/
theorem not_suffix_append {ending : String} (first last : String) (hending : ending.toList ≠ [])
    (hlast : last.toList ≠ []) (h : last.toList.getLast? ≠ ending.toList.getLast?) :
    ¬ending.toList <:+ (first ++ last).toList := by
  intro hsuffix
  have hwhole := getLast?_of_suffix hsuffix hending
  have hend : last.toList <:+ (first ++ last).toList := by
    rw [String.toList_append]
    exact List.suffix_append ..
  exact h ((getLast?_of_suffix hend hlast).symm.trans hwhole)

/-- The messages that come with a hint are those that end as the one of an expression that is not
well formed. -/
theorem Cause.isSome_hint_iff (cause : Cause) :
    cause.hint.isSome = true ↔ "invalid Go expression".toList <:+ cause.message.toList := by
  cases cause with
  | invalidExpression context expected =>
    refine iff_of_true rfl ?_
    show _ <:+ (context.name ++ ": invalid Go expression").toList
    cases context <;> decide +kernel
  | unexpected c =>
    refine iff_of_false nofun ?_
    show ¬_ <:+ ("unexpected '" ++ String.singleton c ++ "'").toList
    exact not_suffix_append _ _ (by decide) (by decide) (by decide)
  | nestingTooDeep limit =>
    refine iff_of_false nofun ?_
    show ¬_ <:+ ("switch: maximum nesting depth of " ++ toString limit ++ " exceeded").toList
    exact not_suffix_append _ _ (by decide) (by decide) (by decide)
  | missingExpression | unterminatedHeader | missingClosingBrace | missingNodes
  | fallthroughOutsideCase | fallthroughNotLast | fallthroughInFinalCase =>
    exact iff_of_false nofun (by decide +kernel)

/-- Every failure is at the position of an offset of the source that splits no character, and what
stands there is what its cause is about; a hint is given exactly for an expression that is not well
formed. -/
theorem parse_error_placed (source : String) (o : Options) (failure : Failure Position)
    (h : parse source o = .error failure) :
    (∃ before rest, before ++ rest = source.toList ∧
      (Source.ofString source).positionAt? (byteLength before) = some failure.place ∧
      failure.cause.Blames before rest) ∧
    (failure.cause.hint.isSome = true ↔
      "invalid Go expression".toList <:+ failure.cause.message.toList) := by
  refine ⟨?_, failure.cause.isSome_hint_iff⟩
  rw [parse, parseWithEvents, Outcome.map] at h
  cases hresult : (readSource o source.toList).result with
  | ok nodes =>
    rw [hresult] at h
    cases h
  | error refused =>
    rw [hresult] at h
    cases h
    obtain ⟨before, rest, hsource, hplace, hblames⟩ :=
      run_placed o .initial _ (Stage.standsAt_initial source.toList) keepsKeywords_initial hresult
    refine ⟨before, rest, hsource, ?_, hblames⟩
    have hle : byteLength before ≤ byteLength source.toList := by
      rw [← hsource, byteLength_append]
      exact Nat.le_add_right ..
    have hboundary : (Source.ofString source).isBoundary (byteLength before) = true := by
      show isBoundary (min (byteLength before) (byteLength source.toList)) source.toList = true
      rw [Nat.min_eq_left hle, ← hsource]
      exact isBoundary_append before rest
    rw [Source.positionAt?, if_pos hboundary, ← hplace]
    rfl

/-- Text in front of the first clause is where the closing brace should have been. -/
theorem parse_error_placed_unclosed :
    ∃ before rest, before ++ rest = "é\nswitch x \x7b\ny\n\x7d".toList ∧
      (Source.ofString "é\nswitch x \x7b\ny\n\x7d").positionAt? (byteLength before) =
        some ⟨14, 3, 1⟩ ∧
      Cause.Blames before rest .missingClosingBrace := by
  have hparse : parse "é\nswitch x \x7b\ny\n\x7d" =
      .error ⟨⟨14, 3, 1⟩, .missingClosingBrace⟩ := by
    decide +kernel
  obtain ⟨hplaced, -⟩ := parse_error_placed _ _ _ hparse
  exact hplaced

end SwitchMarkup

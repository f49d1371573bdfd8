import SwitchMarkup.Proofs.Descent.Simulation

/-!
# What readers leave behind

A reader of a construct gives its state back in order. No match leaves the cursor where it was, a
match leaves it further on, and whatever happens inside, as many switches count as open afterwards
as before. Going back and counting are the business of `attempt` and `deeper` alone: an action in an
`attempt` may leave the cursor anywhere if it finds nothing (`Keeps.attempt`), and one in a `deeper`
has only to keep the count that it is given (`Keeps.deeper`). So each construct is a short sequence
of actions that keep the count and move forward, and the recursion through the bodies is one
induction on the fuel (`readBody_keeps`). Main statement: `readers_disciplined`.
-/

namespace SwitchMarkup.Descent

open SwitchMarkup.Descent.Action

variable {α β : Type} {source : Source} {o : Options} {c : Cursor} {r : Reader} {t u v : Tail}
  {depth fuel bodyFuel n start : Nat} {log : List Event} {word : List Char} {body : BodyReader}

/-! ## Keeping the count of open switches -/

/-- What a reader comes to that keeps the count: a value, which stands in the relation `post` to the
tail that the cursor has got to, or a refusal of the template. A fault is neither. -/
inductive Keeps (source : Source) (depth : Nat) (post : α → Tail → Prop) :
    Except Stop α × Reader → Prop where
  | value {a : α} {u : Tail} {log : List Event} (hu : u.EndOf source.chars) (hpost : post a u) :
      Keeps source depth post (.ok a, ⟨⟨source, u.offset⟩, depth, log⟩)
  | refusal {failure : Failure Position} {c : Cursor} {log : List Event} :
      Keeps source depth post (.error (.failure failure), ⟨c, depth, log⟩)

/-- What becomes of a cursor in front of the tail `t`: it stays if there is no match, and passes at
least one character if there is one. -/
def Moves (t : Tail) : Option α → Tail → Prop
  | none, u => u = t
  | some _, u => u.chars.length < t.chars.length

namespace Keeps

variable {post : α → Tail → Prop} {post' : β → Tail → Prop}

theorem of_ok {a : α} {x : Action Reader α} (hu : u.EndOf source.chars)
    (hx : x.on r = (.ok a, ⟨⟨source, u.offset⟩, depth, log⟩)) (hpost : post a u) :
    Keeps source depth post (x.on r) := by
  rw [hx]
  exact .value hu hpost

theorem of_refusal {failure : Failure Position} {x : Action Reader α}
    (hx : x.on r = (.error (.failure failure), ⟨c, depth, log⟩)) :
    Keeps source depth post (x.on r) := by
  rw [hx]
  exact .refusal

/-- Readers that keep the count one after the other keep it together. -/
theorem bind {x : Action Reader α} {f : α → Action Reader β}
    (hx : Keeps source depth post (x.on r))
    (hf : ∀ a u log, u.EndOf source.chars → post a u →
      Keeps source depth post' ((f a).on ⟨⟨source, u.offset⟩, depth, log⟩)) :
    Keeps source depth post' ((x >>= f).on r) := by
  generalize hresult : x.on r = result at hx
  cases hx with
  | value hu hpost =>
    rw [on_bind_of_ok hresult]
    exact hf _ _ _ hu hpost
  | refusal => exact .of_refusal (on_bind_of_error hresult)

theorem mono {result : Except Stop α × Reader} {post' : α → Tail → Prop}
    (h : Keeps source depth post result) (hpost : ∀ a u, post a u → post' a u) :
    Keeps source depth post' result := by
  cases h with
  | value hu ha => exact .value hu (hpost _ _ ha)
  | refusal => exact .refusal

theorem not_fault {result : Except Stop α × Reader} (h : Keeps source depth post result)
    (fault : Fault) : result.1 ≠ .error (.fault fault) := by
  cases h with
  | value => exact nofun
  | refusal => exact nofun

/-- An attempt at a construct goes back from wherever it has found that there is none. -/
theorem attempt {x : Action Reader (Option α)} (ht : t.EndOf source.chars)
    (hx : Keeps source depth (fun a u => a.isSome = true → u.chars.length < t.chars.length)
      (x.on ⟨⟨source, t.offset⟩, depth, log⟩)) :
    Keeps source depth (Moves t) ((attempt x).on ⟨⟨source, t.offset⟩, depth, log⟩) := by
  generalize hresult : x.on ⟨⟨source, t.offset⟩, depth, log⟩ = result at hx
  cases hx with
  | @value a u log hu hpost =>
    cases a with
    | none => exact .of_ok ht (attempt_on_none ht hresult) rfl
    | some a => exact .of_ok hu (attempt_on_some hresult) (hpost rfl)
  | refusal => exact .of_refusal (attempt_on_error hresult)

/-- One more switch counts as open inside, and no more than before outside, also where the action
inside refuses the template. -/
theorem deeper {x : Action Reader α}
    (hx : Keeps source (depth + 1) post (x.on ⟨c, depth + 1, log⟩)) :
    Keeps source depth post ((deeper x).on ⟨c, depth, log⟩) := by
  generalize hresult : x.on ⟨c, depth + 1, log⟩ = result at hx
  cases hx with
  | value hu hpost => exact .of_ok hu (deeper_on_ok hresult) hpost
  | refusal => exact .of_refusal (deeper_on_failure hresult)

end Keeps

/-- A reader that follows a run keeps the count. -/
theorem Follows.keeps {m : Outcome Nat} {post : α → Tail → Outcome Nat → Prop}
    {post' : α → Tail → Prop} {result : Except Stop α × Reader}
    (h : Follows source depth log m post result)
    (hpost : ∀ a u next, post a u next → post' a u) : Keeps source depth post' result := by
  cases h with
  | value hu _ ha => exact .value hu (hpost _ _ _ ha)
  | failure => exact .refusal

/-! ## Headers and expressions -/

theorem readMarked_keeps (context : Context) (ht : t.EndOf source.chars) :
    Keeps source depth (Moves t)
      ((readMarked word context).on ⟨⟨source, t.offset⟩, depth, log⟩) := by
  by_cases hword : t.startsWith word = true
  · cases hx : extract context t with
    | error failure => exact .of_refusal (readMarked_on_error context ht hword hx)
    | ok x =>
      exact .of_ok (endOf_extract context ht hx) (readMarked_on_ok context ht hword hx)
        (extract_length_lt hx)
  · exact .of_ok ht (readMarked_on_none context ht hword) rfl

theorem length_skipHeaderEnd_lt {x : Extraction} (hx : extractCase t.skipWhiteSpace = .ok x) :
    x.rest.skipHeaderEnd.chars.length < t.chars.length := by
  have hline := (Tail.skipHeaderEnd_suffix x.rest).length_le
  have hheader := extractCase_length_lt hx
  have hwhite := (Tail.skipWhile_suffix isWhiteSpace t).length_le
  exact Nat.lt_of_le_of_lt hline (Nat.lt_of_lt_of_le hheader hwhite)

theorem readHeader_keeps (ht : t.EndOf source.chars) :
    Keeps source depth (Moves t) (readHeader.on ⟨⟨source, t.offset⟩, depth, log⟩) := by
  by_cases hclause : t.skipWhiteSpace.startsClause = true
  · cases hx : extractCase t.skipWhiteSpace with
    | error failure => exact .of_refusal (readHeader_on_error ht hclause hx)
    | ok x =>
      have hrest := endOf_extract .case (endOf_skipWhiteSpace ht) hx
      exact .of_ok (endOf_skipHeaderEnd hrest) (readHeader_on_ok ht hclause hx)
        (length_skipHeaderEnd_lt hx)
  · exact .of_ok ht (readHeader_on_none ht hclause) rfl

/-! ## Clauses and switches -/

/-- The reader of a body keeps the count and does not go back, if fewer than `n` characters are
left. -/
def BodyKeeps (source : Source) (n : Nat) (body : BodyReader) : Prop :=
  ∀ (t : Tail) depth log, t.EndOf source.chars → t.chars.length < n →
    Keeps source depth (fun _ u => u.chars.length ≤ t.chars.length)
      (body.on ⟨⟨source, t.offset⟩, depth, log⟩)

theorem skipWhiteSpace_keeps (ht : t.EndOf source.chars) :
    Keeps source depth (fun _ u => u.chars.length ≤ t.chars.length)
      ((onCursor (skipWhile isWhiteSpace)).on ⟨⟨source, t.offset⟩, depth, log⟩) :=
  .of_ok (endOf_skipWhiteSpace ht) (skipWhiteSpace_onCursor ht)
    (Tail.skipWhile_suffix isWhiteSpace t).length_le

theorem refuseAny_keeps (place : Option Position) (cause : Cause) (ht : t.EndOf source.chars) :
    Keeps source depth (fun _ u => u = t)
      ((refuseAny place cause).on ⟨⟨source, t.offset⟩, depth, log⟩) := by
  cases place with
  | none => exact .of_ok ht (refuseAny_on_none ..) rfl
  | some place => exact .of_refusal (refuseAny_on_some ..)

theorem finishClause_keeps (header : Header Position) (children : Option (List (Node Position)))
    (ht : t.EndOf source.chars) :
    Keeps source depth (fun _ u => u.chars.length ≤ t.chars.length)
      ((finishClause o header children).on ⟨⟨source, t.offset⟩, depth, log⟩) := by
  cases children with
  | none => exact .of_refusal (refuseHere_on ht)
  | some children =>
    refine .bind (refuseAny_keeps _ _ ht) ?_
    rintro _ _ log hu rfl
    refine .bind (skipWhiteSpace_keeps hu) ?_
    intro _ v log hv hle
    exact .of_ok hv (on_pure ..) hle

/-- A clause takes its header at least. -/
theorem readClause_keeps (hbody : BodyKeeps source n body) (ht : t.EndOf source.chars)
    (hn : t.chars.length ≤ n) :
    Keeps source depth (Moves t) ((readClause o body).on ⟨⟨source, t.offset⟩, depth, log⟩) := by
  refine .attempt ht (.bind (readHeader_keeps ht) ?_)
  intro header u log hu hmoves
  cases header with
  | none => exact .of_ok hu (on_pure ..) nofun
  | some header =>
    have hlt : u.chars.length < t.chars.length := hmoves
    refine .bind (hbody u _ _ hu (Nat.lt_of_lt_of_le hlt hn)) ?_
    intro children v log hv hle
    refine (finishClause_keeps header children hv).mono ?_
    intro _ w hw _
    exact Nat.lt_of_le_of_lt hw (Nat.lt_of_le_of_lt hle hlt)

/-- Clauses keep the count if their bodies do. The induction is on the fuel, and the fuel exceeds
the number of characters that are left. -/
theorem readClauses_keeps (hbody : BodyKeeps source n body) (clauses : List (Clause Position))
    (ht : t.EndOf source.chars) (hfuel : t.chars.length < fuel) (hn : t.chars.length ≤ n) :
    Keeps source depth (fun _ u => u.chars.length ≤ t.chars.length)
      ((readClauses o body fuel clauses).on ⟨⟨source, t.offset⟩, depth, log⟩) := by
  induction fuel generalizing t clauses log with
  | zero => omega
  | succ fuel ih =>
    refine .bind (readClause_keeps hbody ht hn) ?_
    intro clause u log hu hmoves
    cases clause with
    | none =>
      obtain rfl : u = t := hmoves
      exact .of_ok hu (on_pure ..) (Nat.le_refl _)
    | some clause =>
      have hlt : u.chars.length < t.chars.length := hmoves
      refine (ih (clauses ++ [clause]) hu (by omega) (by omega)).mono ?_
      intro _ v hle
      exact Nat.le_trans hle (Nat.le_of_lt hlt)

theorem readBlock_keeps (hbody : BodyKeeps source n body) (ht : t.EndOf source.chars)
    (hstart : source.isBoundary start = true) (hfuel : t.chars.length < fuel)
    (hn : t.chars.length ≤ n) :
    Keeps source depth (fun _ u => u.chars.length ≤ t.chars.length)
      ((readBlock o body fuel start).on ⟨⟨source, t.offset⟩, depth, log⟩) := by
  rw [readBlock, on_bind_of_ok (on_get _)]
  dsimp only
  split
  · exact .of_refusal (refuseAt_onCursor hstart rfl)
  · exact readClauses_keeps hbody [] ht hfuel hn

theorem finishSwitch_keeps (tag : Fragment Position) (clauses : List (Clause Position))
    (ht : t.EndOf source.chars) (hstart : source.isBoundary start = true) :
    Keeps source depth (fun _ u => u.chars.length ≤ t.chars.length)
      ((finishSwitch o start tag clauses).on ⟨⟨source, t.offset⟩, depth, log⟩) := by
  refine .bind (refuseAny_keeps _ _ ht) ?_
  rintro _ u log hu rfl
  have hwhite := endOf_skipWhiteSpace hu
  rw [on_bind_of_ok (skipWhiteSpace_onCursor hu)]
  cases hclose : u.skipWhiteSpace.drop? ['\x7d'] with
  | none =>
    rw [on_bind_of_ok (onCursor_on (consume_on_of_none (tail?_mk hwhite) hclose)),
      if_neg Bool.false_ne_true]
    exact .of_refusal (refuseHere_on hwhite)
  | some rest =>
    have hrest := hwhite.drop? hclose
    have hle : rest.chars.length ≤ u.chars.length :=
      ((Tail.drop?_suffix hclose).trans (Tail.skipWhile_suffix isWhiteSpace u)).length_le
    rw [on_bind_of_ok (onCursor_on (consume_on_of_some (tail?_mk hwhite) hclose)), if_pos rfl,
      on_bind_of_ok (on_get _), on_bind_of_ok (report_on _ _), on_bind_of_ok (here_on _),
      on_bind_of_ok (onCursor_on (spanBetween_on hstart (isBoundary_of_endOf hrest))), on_pure]
    exact .value hrest hle

/-- A switch takes its header at least. -/
theorem readSwitch_keeps (hbody : BodyKeeps source n body) (ht : t.EndOf source.chars)
    (hfuel : t.chars.length ≤ fuel) (hn : t.chars.length ≤ n) :
    Keeps source depth (Moves t)
      ((readSwitch o body fuel).on ⟨⟨source, t.offset⟩, depth, log⟩) := by
  by_cases hswitch : t.startsWith (Keyword.spaced Keyword.switch) = true
  · have hstart := isBoundary_of_endOf ht
    refine .attempt ht ?_
    rw [on_bind_of_ok (here_on _), on_bind_of_ok (startsWith_onCursor ht), if_pos hswitch]
    cases hx : extractSwitch t with
    | error failure =>
      exact .of_refusal (on_bind_of_error (readExpression_onCursor_error .switch ht hx))
    | ok x =>
      have hend := endOf_extract .switch ht hx
      rw [on_bind_of_ok (readExpression_onCursor_ok .switch ht hx)]
      cases hopen : x.rest.dropBlockOpening? with
      | none =>
        obtain ⟨offset, hconsume⟩ := consumeOpening_on_of_none (tail?_mk hend) hopen
        rw [on_bind_of_ok (onCursor_on hconsume), if_neg Bool.false_ne_true]
        exact .of_refusal (refuseAt_onCursor hstart rfl)
      | some rest =>
        have hlt : rest.chars.length < t.chars.length := by
          have hopening := (Tail.dropBlockOpening?_suffix hopen).length_le
          exact Nat.lt_of_le_of_lt hopening (extractSwitch_length_lt hx)
        rw [on_bind_of_ok (onCursor_on (consumeOpening_on_of_some (tail?_mk hend) hopen)),
          if_pos rfl]
        refine .bind (.deeper (readBlock_keeps hbody (endOf_dropBlockOpening? hend hopen) hstart
          (Nat.lt_of_lt_of_le hlt hfuel) (Nat.le_trans (Nat.le_of_lt hlt) hn))) ?_
        intro clauses u log hu hle
        refine (finishSwitch_keeps _ clauses hu hstart).mono ?_
        intro _ v hv _
        exact Nat.lt_of_le_of_lt hv (Nat.lt_of_le_of_lt hle hlt)
  · exact .of_ok ht (readSwitch_on_none ht hswitch) rfl

/-! ## Bodies -/

theorem readContent_keeps (ht : t.EndOf source.chars) :
    Keeps source depth (Moves t) (readContent.on ⟨⟨source, t.offset⟩, depth, log⟩) := by
  have hread : Follows source depth log
      ((if t.startsWith ['\x7b'] then stepOutput [] [] t else stepText [] [] t).outcome {})
      (AddsOrRefuses source {} [] [] t) (readContent.on ⟨⟨source, t.offset⟩, depth, log⟩) :=
    readContent_follows ht
  refine hread.keeps ?_
  rintro a u next (⟨node, rfl, hlt, -⟩ | ⟨rfl, rfl, -⟩)
  · exact hlt
  · rfl

/-- A statement is passed over, or the cursor stays where there is none, if the bodies in it keep
the count. -/
theorem readStatement_keeps (hbody : BodyKeeps source n body) (ht : t.EndOf source.chars)
    (hfuel : t.chars.length ≤ fuel) (hn : t.chars.length ≤ n) (inClause : Bool) :
    Keeps source depth (Moves t)
      ((readStatement o body fuel inClause).on ⟨⟨source, t.offset⟩, depth, log⟩) := by
  by_cases hword : t.startsWith Keyword.fallthrough = true
  · obtain ⟨around, rfl⟩ : ∃ around : List Frame, inClause = !around.isEmpty := by
      cases inClause with
      | false => exact ⟨[], rfl⟩
      | true => exact ⟨[⟨⟨[], 0, ⟨"", ⟨0, 0⟩⟩, []⟩, .default ⟨0, 0⟩⟩], rfl⟩
    have hread : Follows source depth log ((stepFallthrough around [] t).outcome o)
        (AddsNode source o around [] t)
        ((readStatement o body fuel !around.isEmpty).on ⟨⟨source, t.offset⟩, depth, log⟩) :=
      readStatement_follows_fallthrough ht hword
    refine hread.keeps ?_
    rintro a u next ⟨node, rfl, hlt, -⟩
    exact hlt
  · rw [readStatement_on_none ht inClause hword]
    exact readSwitch_keeps hbody ht hfuel hn

/-- A node is passed over, or the cursor stays where there is none, if the bodies in it keep the
count. -/
theorem readNode_keeps (hbody : BodyKeeps source n body) (ht : t.EndOf source.chars)
    (hfuel : t.chars.length ≤ fuel) (hn : t.chars.length ≤ n) (inClause lineStart : Bool) :
    Keeps source depth (Moves t)
      ((readNode o body fuel inClause lineStart).on ⟨⟨source, t.offset⟩, depth, log⟩) := by
  cases lineStart with
  | false => exact readContent_keeps ht
  | true =>
    rw [readNode, if_pos rfl]
    refine .bind (readStatement_keeps hbody ht hfuel hn inClause) ?_
    intro node u log hu hmoves
    cases node with
    | some node => exact .of_ok hu (on_pure ..) hmoves
    | none =>
      obtain rfl : u = t := hmoves
      exact readContent_keeps hu

/-- One turn of the loop over the nodes of a body: one more node, or what the loop comes to. -/
def readTurn (o : Options) (body : BodyReader) (bodyFuel : Nat) (inClause : Bool)
    (nodes : List (Node Position)) (lineStart : Bool) :
    Action Reader (Option (List (Node Position)) ⊕ Node Position) := do
  let newLine ← onCursor skipLines
  if ← onCursor (atBodyEnd inClause (lineStart || newLine)) then return .inl (some nodes)
  else if (← get).cursor.isAtEnd then
    return .inl (if inClause && nodes.isEmpty then none else some nodes)
  else
    match ← readNode o body bodyFuel inClause (lineStart || newLine) with
    | some node => return .inr node
    | none =>
      let rest ← onCursor remaining
      refuseHere (.unexpected (rest.headD '\x00'))

theorem refuseHere_bind (cause : Cause) (f : α → Action Reader β) :
    refuseHere cause >>= f = refuseHere cause := by
  rw [refuseHere, refuseHere, bind_assoc]
  refine bind_congr fun offset => funext fun r => ?_
  show (onCursor (refuseAt offset cause) >>= f).on r = (onCursor (refuseAt offset cause)).on r
  by_cases h : r.cursor.source.isBoundary offset = true
  · rw [on_bind_of_error (refuseAt_onCursor h rfl), refuseAt_onCursor h rfl]
  · have hfault {γ : Type} : (refuseAt offset cause : Action Cursor γ).on r.cursor =
        (.error (.fault .badCut), r.cursor) := by
      rw [refuseAt, on_bind_of_error (positionAt_on_of_not h)]
    rw [on_bind_of_error (onCursor_on hfault), onCursor_on hfault]

/-- The loop takes one turn, and goes on behind the node that this has read. -/
theorem readNodes_succ (o : Options) (body : BodyReader) (bodyFuel : Nat) (inClause : Bool)
    (fuel : Nat) (nodes : List (Node Position)) (lineStart : Bool) :
    readNodes o body bodyFuel inClause (fuel + 1) nodes lineStart =
      readTurn o body bodyFuel inClause nodes lineStart >>= fun
        | .inl result => pure result
        | .inr node => readNodes o body bodyFuel inClause fuel (nodes ++ [node]) false := by
  simp only [readNodes, readTurn, bind_assoc]
  refine bind_congr fun newLine => bind_congr fun ends => ?_
  split
  · rfl
  · simp only [bind_assoc]
    refine bind_congr fun r => ?_
    split
    · rfl
    · simp only [bind_assoc]
      refine bind_congr fun node => ?_
      cases node with
      | some node => rfl
      | none => simp only [bind_assoc, refuseHere_bind]

/-- What a turn of the loop over nodes does with the cursor: a node takes at least one character. -/
def Turns (t : Tail) : Option (List (Node Position)) ⊕ Node Position → Tail → Prop
  | .inl _, u => u.chars.length ≤ t.chars.length
  | .inr _, u => u.chars.length < t.chars.length

/-- One turn of the loop over nodes keeps the count, and leaves less text if the loop goes on. -/
theorem readTurn_keeps (hbody : BodyKeeps source n body) (nodes : List (Node Position))
    (ht : t.EndOf source.chars) (hfuel : t.chars.length ≤ bodyFuel) (hn : t.chars.length ≤ n)
    (inClause lineStart : Bool) :
    Keeps source depth (Turns t)
      ((readTurn o body bodyFuel inClause nodes lineStart).on
        ⟨⟨source, t.offset⟩, depth, log⟩) := by
  have hwhite := endOf_skipWhiteSpace ht
  have hle : t.skipWhiteSpace.chars.length ≤ t.chars.length :=
    (Tail.skipWhile_suffix isWhiteSpace t).length_le
  rw [readTurn, on_bind_of_ok (onCursor_on (skipLines_on ht)),
    on_bind_of_ok (onCursor_on (atBodyEnd_on (tail?_mk hwhite) ..))]
  split
  · exact .of_ok hwhite (on_pure ..) hle
  · rw [on_bind_of_ok (on_get _)]
    split
    · exact .of_ok hwhite (on_pure ..) hle
    · refine .bind (readNode_keeps hbody hwhite (Nat.le_trans hle hfuel) (Nat.le_trans hle hn)
        inClause _) ?_
      intro node u log hu hmoves
      cases node with
      | some node =>
        have hlt : u.chars.length < t.skipWhiteSpace.chars.length := hmoves
        exact .of_ok hu (on_pure ..) (Nat.lt_of_lt_of_le hlt hle)
      | none =>
        rw [on_bind_of_ok (onCursor_on (remaining_on (tail?_mk hu)))]
        exact .of_refusal (refuseHere_on hu)

/-- The loop over nodes keeps the count if the bodies in it do, by induction on the fuel. -/
theorem readNodes_keeps (hbody : BodyKeeps source n body) (nodes : List (Node Position))
    (ht : t.EndOf source.chars) (hfuel : t.chars.length < fuel)
    (hbodyFuel : t.chars.length ≤ bodyFuel) (hn : t.chars.length ≤ n)
    (inClause lineStart : Bool) :
    Keeps source depth (fun _ u => u.chars.length ≤ t.chars.length)
      ((readNodes o body bodyFuel inClause fuel nodes lineStart).on
        ⟨⟨source, t.offset⟩, depth, log⟩) := by
  induction fuel generalizing t nodes lineStart log with
  | zero => omega
  | succ fuel ih =>
    rw [readNodes_succ]
    refine .bind (readTurn_keeps hbody nodes ht hbodyFuel hn inClause lineStart) ?_
    intro turn u log hu hturn
    cases turn with
    | inl result => exact .of_ok hu (on_pure ..) hturn
    | inr node =>
      have hlt : u.chars.length < t.chars.length := hturn
      refine (ih (nodes ++ [node]) hu (by omega) (by omega) (by omega) false).mono ?_
      intro _ v hle
      exact Nat.le_trans hle (Nat.le_of_lt hlt)

/-- Bodies inside of one another keep the count, each with less fuel than the one around it. -/
theorem readBody_keeps (source : Source) (o : Options) (fuel : Nat) :
    BodyKeeps source fuel (readBody o fuel true) := by
  induction fuel with
  | zero =>
    intro t depth log _ hlt
    exact absurd hlt (Nat.not_lt_zero _)
  | succ fuel ih =>
    intro t depth log ht hlt
    have hle := Nat.le_of_lt_succ hlt
    exact readNodes_keeps ih [] ht hlt hle hle true true

/-! ## Discipline -/

/-- What the reader of a construct that begins in the state `r` may come to. -/
structure Disciplined (r : Reader) (result : Except Stop (Option α) × Reader) : Prop where
  /-- It does not fault. -/
  noFault : ∀ fault, result.1 ≠ .error (.fault fault)
  /-- Be there a match, no match or a refusal, even one from deep inside, as many switches count as
  open as before. -/
  depth_eq : result.2.depth = r.depth
  /-- No match leaves the cursor where it was. -/
  goes_back : result.1 = .ok none → result.2.cursor = r.cursor
  /-- A match leaves it further on in the same source. -/
  goes_on : ∀ a, result.1 = .ok (some a) →
    result.2.cursor.source = r.cursor.source ∧ r.cursor.index < result.2.cursor.index

/-- Of two ends of a source the shorter one begins further on. -/
theorem offset_lt_of_length_lt {source : List Char} (ht : t.EndOf source) (hu : u.EndOf source)
    (h : u.chars.length < t.chars.length) : t.offset < u.offset := by
  obtain ⟨front, hfront⟩ := List.suffix_of_suffix_length_le hu.suffix ht.suffix (Nat.le_of_lt h)
  have hsum : t.offset + byteLength t.chars = byteLength source := ht.fits
  have hsum' : u.offset + byteLength u.chars = byteLength source := hu.fits
  have hpos := length_le_byteLength front
  rw [← hfront, List.length_append] at h
  rw [← hfront, byteLength_append] at hsum
  omega

/-- What keeps the count and moves the cursor only over a match is disciplined. -/
theorem Keeps.disciplined {result : Except Stop (Option α) × Reader} (ht : t.EndOf source.chars)
    (h : Keeps source depth (Moves t) result) :
    Disciplined ⟨⟨source, t.offset⟩, depth, log⟩ result := by
  cases h with
  | @value a u log hu hmoves =>
    refine ⟨nofun, rfl, ?_, ?_⟩
    · rintro ⟨⟩
      obtain rfl : u = t := hmoves
      rfl
    · rintro a ⟨⟩
      exact ⟨rfl, offset_lt_of_length_lt ht hu hmoves⟩
  | refusal => exact ⟨nofun, rfl, nofun, nofun⟩

/-- Where the header of an expression is not well formed, and inside of a character, the cursor
stays. -/
theorem readExpression_error {c' : Cursor} {context : Context} {stop : Stop}
    (h : (readExpression context).on c = (.error stop, c')) : c' = c := by
  cases hc : c.tail? with
  | none =>
    rw [readExpression_on_inside hc] at h
    cases h
    rfl
  | some t =>
    rw [readExpression_on hc] at h
    split at h
    · cases h
    · cases h
      rfl

/-- Wherever a cursor stands in front of a tail, with any number of open switches, the readers of
switches, clauses, clause headers, `fallthrough`s and expressions in braces are disciplined, if the
fuel is no less than the number of characters left. And no expression that is refused moves a
cursor, be it on a boundary or not. -/
theorem readers_disciplined (o : Options) {r : Reader} (hr : r.cursor.tail? = some t)
    (hfuel : t.chars.length ≤ fuel) :
    Disciplined r ((readSwitch o (readBody o fuel true) fuel).on r) ∧
      Disciplined r ((readClause o (readBody o fuel true)).on r) ∧
      Disciplined r (readHeader.on r) ∧
      Disciplined r (readFallthrough.on r) ∧
      Disciplined r (readOutput.on r) ∧
      ∀ (context : Context) (c c' : Cursor) (stop : Stop),
        (readExpression context).on c = (.error stop, c') → c' = c := by
  obtain ⟨⟨source, index⟩, depth, log⟩ := r
  obtain ⟨rfl, ht⟩ := tail?_eq_some_iff.1 hr
  have hbody := readBody_keeps source o fuel
  refine ⟨(readSwitch_keeps hbody ht hfuel hfuel).disciplined ht,
    (readClause_keeps hbody ht hfuel).disciplined ht, (readHeader_keeps ht).disciplined ht,
    (readMarked_keeps .fallthrough ht).disciplined ht, (readMarked_keeps .output ht).disciplined ht,
    fun _ _ _ _ => readExpression_error⟩

/-- From a place behind a letter of two bytes, inside of three switches, a switch is read up to an
error in the switch inside of it; afterwards three switches count as open. -/
theorem readers_disciplined_refused :
    let source := Source.ofString "é\nswitch x \x7b\ncase 1:\nswitch y \x7b\ncase 2\n"
    let r : Reader := { cursor := ⟨source, 3⟩, depth := 3 }
    let result := (readSwitch {} (readBody {} 38 true) 38).on r
    result.1.isOk = false ∧ result.2.cursor.index = 33 ∧ result.2.depth = 3 := by
  intro source r result
  refine ⟨by decide +kernel, by decide +kernel, ?_⟩
  have hr : r.cursor.tail? = some ⟨3, source.chars.drop 2⟩ := by decide +kernel
  exact (readers_disciplined {} hr (by decide +kernel)).1.depth_eq

end SwitchMarkup.Descent

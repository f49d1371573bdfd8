import SwitchMarkup.Proofs.Descent.Discipline
import SwitchMarkup.Proofs.Template.Size

/-!
# A parse goes on and ends

Fuel is no part of the language, and no source uses it up: every turn of a loop takes characters, a
bracket inside of an expression is as long as its items, and a body inside of another one begins
further on than that. The last is said by a guard. A body that is only read `beyond` an offset
faults elsewhere, and a reader that is given guarded bodies does, as long as it does not fault, what
it does without the guard (`readNodes_refines`); but it does not fault. Main statement:
`parse_terminates`.
-/

namespace SwitchMarkup.Descent

open SwitchMarkup.Descent.Action

variable {σ α β : Type} {source : Source} {o : Options} {r : Reader} {t u : Tail}
  {depth fuel bodyFuel n start : Nat} {log : List Event} {body body' : BodyReader}

/-! ## Doing the same or faulting -/

/-- The first of two results is the second one, unless it is a fault. -/
def Refines (x y : Except Stop α × σ) : Prop := (∃ fault, x.1 = .error (.fault fault)) ∨ x = y

theorem Refines.refl {x : Except Stop α × σ} : Refines x x := .inr rfl

theorem Refines.eq {x y : Except Stop α × σ} (h : Refines x y)
    (hx : ∀ fault, x.1 ≠ .error (.fault fault)) : x = y := by
  rcases h with ⟨fault, hfault⟩ | heq
  · exact absurd hfault (hx fault)
  · exact heq

/-- The relation goes through a sequence of actions. -/
theorem Refines.bind {x y : Action σ α} {f g : α → Action σ β} {s : σ}
    (hx : Refines (x.on s) (y.on s)) (hf : ∀ a s, Refines ((f a).on s) ((g a).on s)) :
    Refines ((x >>= f).on s) ((y >>= g).on s) := by
  rcases hx with ⟨fault, hfault⟩ | heq
  · refine .inl ⟨fault, ?_⟩
    rw [on_bind_of_error (Prod.ext hfault rfl)]
  · generalize hresult : y.on s = result at heq
    obtain ⟨value, s'⟩ := result
    cases value with
    | error stop =>
      rw [on_bind_of_error heq, on_bind_of_error hresult]
      exact .refl
    | ok a =>
      rw [on_bind_of_ok heq, on_bind_of_ok hresult]
      exact hf a s'

theorem Refines.attempt {x y : Action Reader (Option α)} (h : ∀ r, Refines (x.on r) (y.on r)) :
    Refines ((attempt x).on r) ((attempt y).on r) :=
  .bind .refl fun _ _ => .bind (h _) fun _ _ => .refl

theorem Refines.settle {x y : Action σ α} {s : σ} (h : Refines (x.on s) (y.on s)) :
    Refines (x.settle.on s) (y.settle.on s) := by
  rcases h with ⟨fault, hfault⟩ | heq
  · refine .inl ⟨fault, ?_⟩
    rw [on_settle_of_fault (Prod.ext hfault rfl)]
  · generalize hresult : y.on s = result at heq
    obtain ⟨value, s'⟩ := result
    cases value with
    | error stop =>
      cases stop with
      | fault fault =>
        rw [on_settle_of_fault heq, on_settle_of_fault hresult]
        exact .refl
      | failure failure =>
        rw [on_settle_of_failure heq, on_settle_of_failure hresult]
        exact .refl
    | ok a =>
      rw [on_settle_of_ok heq, on_settle_of_ok hresult]
      exact .refl

theorem Refines.deeper {x y : Action Reader α} (h : ∀ r, Refines (x.on r) (y.on r)) :
    Refines ((deeper x).on r) ((deeper y).on r) :=
  .bind .refl fun _ _ => .bind (.settle (h _)) fun _ _ => .refl

/-! ## Readers with refined bodies -/

/-- A body that does the same or faults makes a clause that does the same or faults. -/
theorem readClause_refines (hbody : ∀ r, Refines (body.on r) (body'.on r)) (r : Reader) :
    Refines ((readClause o body).on r) ((readClause o body').on r) := by
  refine .attempt fun r => .bind .refl fun header r => ?_
  cases header with
  | none => exact .refl
  | some header => exact .bind (hbody r) fun _ _ => .refl

/-- A body that does the same or faults makes clauses that do, by induction on the fuel. -/
theorem readClauses_refines (hbody : ∀ r, Refines (body.on r) (body'.on r)) (fuel : Nat)
    (clauses : List (Clause Position)) (r : Reader) :
    Refines ((readClauses o body fuel clauses).on r) ((readClauses o body' fuel clauses).on r) := by
  induction fuel generalizing clauses r with
  | zero => exact .refl
  | succ fuel ih =>
    refine .bind (readClause_refines hbody r) fun clause r => ?_
    cases clause with
    | none => exact .refl
    | some clause => exact ih (clauses ++ [clause]) r

theorem readSwitch_refines (hbody : ∀ r, Refines (body.on r) (body'.on r)) (fuel : Nat)
    (r : Reader) :
    Refines ((readSwitch o body fuel).on r) ((readSwitch o body' fuel).on r) := by
  refine .attempt fun r => .bind .refl fun start r => .bind .refl fun switches r => ?_
  split
  · refine .bind .refl fun tag r => .bind .refl fun opened r => ?_
    split
    · refine .bind (.deeper fun r => .bind .refl fun reader r => ?_) fun _ _ => .refl
      dsimp only
      split
      · exact .refl
      · exact readClauses_refines hbody fuel [] r
    · exact .refl
  · exact .refl

theorem readNode_refines (hbody : ∀ r, Refines (body.on r) (body'.on r)) (fuel : Nat)
    (inClause lineStart : Bool) (r : Reader) :
    Refines ((readNode o body fuel inClause lineStart).on r)
      ((readNode o body' fuel inClause lineStart).on r) := by
  rw [readNode, readNode]
  split
  · refine .bind (.bind .refl fun keyword r => ?_) fun _ _ => .refl
    cases keyword with
    | some keyword => exact .refl
    | none => exact readSwitch_refines hbody fuel r
  · exact .refl

theorem readTurn_refines (hbody : ∀ r, Refines (body.on r) (body'.on r)) (bodyFuel : Nat)
    (inClause : Bool) (nodes : List (Node Position)) (lineStart : Bool) (r : Reader) :
    Refines ((readTurn o body bodyFuel inClause nodes lineStart).on r)
      ((readTurn o body' bodyFuel inClause nodes lineStart).on r) := by
  refine .bind .refl fun newLine r => .bind .refl fun ends r => ?_
  split
  · exact .refl
  · refine .bind .refl fun reader r => ?_
    split
    · exact .refl
    · exact .bind (readNode_refines hbody bodyFuel inClause _ r) fun _ _ => .refl

/-- A body that does the same or faults makes a loop over nodes that does. The induction is on the
fuel. -/
theorem readNodes_refines (hbody : ∀ r, Refines (body.on r) (body'.on r)) (bodyFuel : Nat)
    (inClause : Bool) (fuel : Nat) (nodes : List (Node Position)) (lineStart : Bool) (r : Reader) :
    Refines ((readNodes o body bodyFuel inClause fuel nodes lineStart).on r)
      ((readNodes o body' bodyFuel inClause fuel nodes lineStart).on r) := by
  induction fuel generalizing nodes lineStart r with
  | zero => exact .refl
  | succ fuel ih =>
    rw [readNodes_succ, readNodes_succ]
    refine .bind (readTurn_refines hbody bodyFuel inClause nodes lineStart r) fun turn r => ?_
    cases turn with
    | inl result => exact .refl
    | inr node => exact ih (nodes ++ [node]) false r

/-! ## Bodies that begin further on -/

/-- Reads a body, but faults unless it begins behind an offset. -/
def beyond (start : Nat) (body : BodyReader) : BodyReader := do
  if start < (← here) then body else throw (.fault .outOfFuel)

theorem beyond_on_of_lt (h : start < r.cursor.index) :
    (beyond start body).on r = body.on r := by
  rw [beyond, on_bind_of_ok (here_on r), if_pos h]

/-- A guarded body does the same as the body, or faults. -/
theorem beyond_refines (start : Nat) (body : BodyReader) (r : Reader) :
    Refines ((beyond start body).on r) (body.on r) := by
  by_cases h : start < r.cursor.index
  · rw [beyond_on_of_lt h]
    exact .refl
  · rw [beyond, on_bind_of_ok (here_on r), if_neg h]
    exact .inl ⟨.outOfFuel, rfl⟩

/-- A guard shuts out no body in front of less text than `t` has. -/
theorem beyond_keeps (hbody : BodyKeeps source n body) (ht : t.EndOf source.chars)
    (hn : t.chars.length ≤ n) : BodyKeeps source t.chars.length (beyond t.offset body) := by
  intro u depth log hu hlt
  rw [beyond_on_of_lt (offset_lt_of_length_lt ht hu hlt)]
  exact hbody u depth log hu (Nat.lt_of_lt_of_le hlt hn)

/-- A body whose inner bodies are guarded reads what it reads without the guard. -/
theorem readNodes_beyond (ht : t.EndOf source.chars) (hfuel : t.chars.length ≤ fuel)
    (inClause : Bool) :
    (readNodes o (beyond t.offset (readBody o fuel true)) fuel inClause (fuel + 1) [] true).on
        ⟨⟨source, t.offset⟩, depth, log⟩ =
      (readBody o (fuel + 1) inClause).on ⟨⟨source, t.offset⟩, depth, log⟩ := by
  have hguarded := beyond_keeps (readBody_keeps source o fuel) ht hfuel
  rw [readBody]
  refine (readNodes_refines (beyond_refines t.offset _) fuel inClause (fuel + 1) [] true _).eq ?_
  exact (readNodes_keeps hguarded [] ht (Nat.lt_succ_of_le hfuel) hfuel (Nat.le_refl _) inClause
    true).not_fault

/-! ## Everything together -/

/-- How a body is read on from the state `r`, in which a turn of its loop, a clause of a switch or
the body itself begins. -/
structure Progresses (o : Options) (fuel : Nat) (r : Reader) : Prop where
  /-- A turn of the loop over nodes either ends it or moves the cursor on. -/
  turn : ∀ inClause nodes lineStart node,
    ((readTurn o (readBody o fuel true) fuel inClause nodes lineStart).on r).1 = .ok (.inr node) →
      r.cursor.index <
        ((readTurn o (readBody o fuel true) fuel inClause nodes lineStart).on r).2.cursor.index
  /-- A clause that is found moves the cursor on. -/
  clause : ∀ clause, ((readClause o (readBody o fuel true)).on r).1 = .ok (some clause) →
    r.cursor.index < ((readClause o (readBody o fuel true)).on r).2.cursor.index
  /-- A body is read with bodies inside of it that all begin further on than it does. -/
  inside : ∀ inClause,
    (readNodes o (beyond r.cursor.index (readBody o fuel true)) fuel inClause (fuel + 1) []
      true).on r = (readBody o (fuel + 1) inClause).on r
  /-- The fuel for recursion and loops lasts, and nothing else faults. -/
  noFault : ∀ inClause fault, ((readBody o (fuel + 1) inClause).on r).1 ≠ .error (.fault fault)

/-- A turn that has read a node stands behind it. -/
theorem Keeps.offset_lt
    {result : Except Stop (Option (List (Node Position)) ⊕ Node Position) × Reader}
    {node : Node Position} (ht : t.EndOf source.chars) (h : Keeps source depth (Turns t) result)
    (hnode : result.1 = .ok (.inr node)) : t.offset < result.2.cursor.index := by
  cases h with
  | value hu hturns =>
    cases hnode
    exact offset_lt_of_length_lt ht hu hturns
  | refusal => cases hnode

/-- From every tail of the source on, with fuel for its characters, all readers make progress. -/
theorem progresses (o : Options) (hr : r.cursor.tail? = some t) (hfuel : t.chars.length ≤ fuel) :
    Progresses o fuel r := by
  obtain ⟨⟨source, index⟩, depth, log⟩ := r
  obtain ⟨rfl, ht⟩ := tail?_eq_some_iff.1 hr
  have hbody := readBody_keeps source o fuel
  refine ⟨?_, ?_, fun inClause => readNodes_beyond ht hfuel inClause, ?_⟩
  · intro inClause nodes lineStart node hnode
    exact (readTurn_keeps hbody nodes ht hfuel hfuel inClause lineStart).offset_lt ht hnode
  · intro clause hclause
    exact (((readClause_keeps hbody ht hfuel).disciplined ht).goes_on clause hclause).2
  · intro inClause fault
    exact (readNodes_keeps hbody [] ht (Nat.lt_succ_of_le hfuel) hfuel hfuel inClause
      true).not_fault fault

/-- A source is read to its outcome with any fuel that is more than its bytes, and a template has no
more nodes and clauses than its source has bytes. From any boundary on, with fuel for what is left,
the loops and the recursion of the parser move on; so do the items of an expression, of which a run
and the inside of a bracket consist. -/
theorem parse_terminates (source : String) (o : Options) :
    (∀ fuel, (Source.ofString source).length < fuel →
      descendWith fuel (.ofString source) o = .ok (parseWithEvents source o)) ∧
    (∀ t, parse source o = .ok t → Template.size t ≤ (Source.ofString source).length) ∧
    (∀ (r : Reader) (t : Tail) (fuel : Nat), r.cursor.tail? = some t → t.chars.length ≤ fuel →
      Progresses o fuel r) ∧
    (∀ body bodyFuel inClause fuel nodes lineStart,
      readNodes o body bodyFuel inClause (fuel + 1) nodes lineStart =
        readTurn o body bodyFuel inClause nodes lineStart >>= fun
          | .inl result => pure result
          | .inr node => readNodes o body bodyFuel inClause fuel (nodes ++ [node]) false) ∧
    ∀ kind c cs, Items.Advances kind c cs := by
  refine ⟨fun fuel hfuel => ?_, fun t ht => ?_, fun r t fuel => progresses o, fun _ _ _ _ _ _ =>
    readNodes_succ .., fun kind c cs => Items.advances kind c cs⟩
  · exact descendWith_eq (.ofString source) o
      (Nat.lt_of_le_of_lt (length_le_byteLength source.toList) hfuel)
  · obtain ⟨nodes, hbody, rfl⟩ := parse_eq_ok_iff.1 ht
    rw [Template.size_map]
    exact Nat.le_trans hbody.size_le (length_le_byteLength source.toList)

end SwitchMarkup.Descent

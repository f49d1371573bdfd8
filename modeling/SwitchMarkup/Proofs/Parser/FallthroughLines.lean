import SwitchMarkup.Proofs.Parser.Advance
import SwitchMarkup.Proofs.Template.Placement
import SwitchMarkup.Template.Equality

/-!
# The line of a fallthrough

Two readers tell where the line of a `fallthrough` ends. The one that takes the keyword wants a line
break or the end of the source behind it, and a carriage return is a line break by itself. The one
that goes on with the body looks for a line feed in the white space that comes next. So a lone
carriage return ends the line for the first and not for the second, and what begins the next line is
then text, even if it is the header of a clause. Main statement: `fallthroughLine_of_step`.
-/

namespace SwitchMarkup

/-- The text begins with a word that counts only at the start of a line. -/
def OpensKeyword (cs : List Char) : Prop := OpensClause cs ∨ OpensStatement cs

/-- What comes of the text `rest` behind a `fallthrough` in the clause of a frame, if the clause has
the nodes `nodes` with it. -/
structure FallthroughLine (o : Options) (frame : Frame) (outer : List Frame)
    (nodes : List (Node Nat)) (rest : Tail) : Prop where
  /-- A line ends in front of it: it begins with a line break, or the source ends. -/
  endsLine : EndsLine rest.chars
  /-- It is read as at the start of a line exactly if its white space has a line feed or no keyword
  stands behind that. -/
  atLineStart_iff :
    step o (.body (frame :: outer) nodes false) rest =
        step o (.body (frame :: outer) nodes true) rest ↔
      '\n' ∈ rest.chars.takeWhile isWhiteSpace ∨ ¬OpensKeyword rest.skipWhiteSpace.chars
  /-- If the header of a clause stands there, the clause ends exactly if there is a line feed. -/
  endsClause_iff : OpensClause rest.skipWhiteSpace.chars →
    (step o (.body (frame :: outer) nodes false) rest =
        closeClause o frame nodes (fun block => openClause outer block rest.skipWhiteSpace) ↔
      '\n' ∈ rest.chars.takeWhile isWhiteSpace)
  /-- Without a line feed the source ends there, or begins with a carriage return by itself. -/
  carriageReturn : '\n' ∉ rest.chars.takeWhile isWhiteSpace →
    rest.chars = [] ∨ ∃ more, rest.chars = '\r' :: more ∧ '\n' ∉ more.head?
  /-- Without a line feed the header of a clause begins a text of the clause in front of it, and
  under the rules on `fallthrough` no template comes of that. -/
  readsText : OpensClause rest.skipWhiteSpace.chars → '\n' ∉ rest.chars.takeWhile isWhiteSpace →
    (∃ line stop, line.span.start = rest.skipWhiteSpace.offset ∧
      step o (.body (frame :: outer) nodes false) rest =
        addNode (frame :: outer) nodes (.text line) stop) ∧
    (o.placement = true → ∀ template,
      (run o (.body (frame :: outer) nodes false) rest).result ≠ .ok template)

variable {o : Options} {around outer : List Frame} {frame : Frame} {nodes : List (Node Nat)}
  {keyword : Fragment Nat} {lineStart : Bool} {events : List Event} {cs ds : List Char} {d : Char}
  {t rest : Tail}

/-! ## Keywords within a line -/

/-- A keyword begins with a character that text can begin with. -/
theorem OpensKeyword.exists_cons (h : OpensKeyword cs) :
    ∃ c more, cs = c :: more ∧ isWhiteSpace c = false ∧ endsText c = false := by
  rcases h with (⟨more, rfl⟩ | ⟨more, rfl⟩) | (⟨more, rfl⟩ | ⟨more, rfl⟩)
  all_goals exact ⟨_, _, rfl, by decide, by decide⟩

/-- No keyword begins with a character that ends text. -/
theorem OpensKeyword.startsWith_eq_false (h : OpensKeyword t.chars) (hd : endsText d = true) :
    t.startsWith [d] = false := by
  obtain ⟨c, more, hcons, -, hc⟩ := h.exists_cons
  rw [Bool.eq_false_iff, Ne, Tail.startsWith_iff, hcons, List.cons_prefix_cons]
  rintro ⟨rfl, -⟩
  cases hc.symm.trans hd

/-- Where no keyword counts, one is read as text. -/
theorem stepNode_of_opensKeyword (h : OpensKeyword t.chars) :
    ∃ line stop, line.span.start = t.offset ∧
      stepNode o around nodes false t = addNode around nodes (.text line) stop := by
  obtain ⟨c, more, hcons, hvisible, hc⟩ := h.exists_cons
  have hbrace : t.startsWith ['\x7b'] = false := h.startsWith_eq_false rfl
  have hvalue : (trimEnd (t.chars.takeWhile fun c => !endsText c)).isEmpty = false := by
    rw [hcons, List.takeWhile_cons_of_pos (by rw [hc]; rfl), List.isEmpty_eq_false_iff]
    exact trimEnd_ne_nil hvisible
  simp only [stepNode, Bool.false_and, Bool.false_eq_true, if_false, hbrace, stepText, hvalue]
  exact ⟨_, _, rfl, rfl⟩

/-- Within a line the body of a clause goes on with a keyword as text. -/
theorem stepBody_of_opensKeyword (hline : '\n' ∉ t.chars.takeWhile isWhiteSpace)
    (h : OpensKeyword t.skipWhiteSpace.chars) :
    ∃ line stop, line.span.start = t.skipWhiteSpace.offset ∧
      stepBody o (frame :: outer) nodes false t =
        addNode (frame :: outer) nodes (.text line) stop := by
  obtain ⟨c, more, hcons, -, -⟩ := h.exists_cons
  have hbrace : t.skipWhiteSpace.startsWith ['\x7d'] = false := h.startsWith_eq_false rfl
  have hempty : t.skipWhiteSpace.isEmpty = false := by
    rw [Tail.isEmpty, hcons]
    rfl
  simp only [stepBody, Bool.false_or, List.contains_eq_mem, decide_eq_false hline, Bool.false_and,
    hbrace, hempty, Bool.false_eq_true, if_false]
  exact stepNode_of_opensKeyword h

/-! ## The start of a line -/

/-- Behind a line feed it makes no difference where the body stood. -/
theorem stepBody_of_newline (hline : '\n' ∈ t.chars.takeWhile isWhiteSpace) :
    stepBody o around nodes lineStart t = stepBody o around nodes true t := by
  simp only [stepBody, List.contains_eq_mem, decide_eq_true hline, Bool.or_true]

/-- If no keyword comes next, it makes no difference either. -/
theorem stepBody_of_not_opensKeyword (h : ¬OpensKeyword t.skipWhiteSpace.chars) :
    stepBody o around nodes lineStart t = stepBody o around nodes true t := by
  obtain ⟨hclause, hstatement⟩ := not_or.1 h
  obtain ⟨hfallthrough, hswitch⟩ := not_or.1 hstatement
  rw [← Tail.startsClause_iff, Bool.not_eq_true] at hclause
  rw [← Tail.startsWith_iff, Bool.not_eq_true] at hfallthrough hswitch
  simp only [stepBody, stepNode, hclause, hfallthrough, hswitch, Bool.and_false]

/-- At the start of a line the header of a clause ends the body in front of it. -/
theorem stepBody_of_opensClause (h : OpensClause t.skipWhiteSpace.chars) :
    stepBody o (frame :: outer) nodes true t =
      closeClause o frame nodes fun block => openClause outer block t.skipWhiteSpace := by
  have hbrace : t.skipWhiteSpace.startsWith ['\x7d'] = false :=
    OpensKeyword.startsWith_eq_false (.inl h) rfl
  simp only [stepBody, Bool.true_or, Bool.true_and, hbrace, Tail.startsClause_iff.2 h,
    Bool.false_eq_true, if_false, if_true]

/-- At the start of a line no keyword is read as text. -/
theorem stepBody_ne_text (h : OpensKeyword t.skipWhiteSpace.chars) (line : Fragment Nat)
    (stop : Tail) :
    stepBody o (frame :: outer) nodes true t ≠
      addNode (frame :: outer) nodes (.text line) stop := by
  intro hstep
  have ht : t.Fits (t.offset + byteLength t.chars) := rfl
  rcases h with hclause | hstatement
  · rw [stepBody_of_opensClause hclause] at hstep
    obtain ⟨-, -, header, gap, -, -, hstage⟩ :=
      openClause_advance (ht.skipWhile isWhiteSpace) hclause (closeClause_advance hstep).2
    exact absurd (Stage.body.inj hstage).2.2 nofun
  · obtain ⟨node, hnode, hline⟩ := (stepBody_advance ht hstep).2.exists_node
    cases hnode with
    | text _ hkeyword => exact hkeyword rfl hstatement
    | output | fallthrough | switch => cases hline

/-- A body is read as at the start of a line exactly if its white space has a line feed or no
keyword stands behind that. -/
theorem stepBody_eq_lineStart_iff :
    stepBody o (frame :: outer) nodes false t = stepBody o (frame :: outer) nodes true t ↔
      '\n' ∈ t.chars.takeWhile isWhiteSpace ∨ ¬OpensKeyword t.skipWhiteSpace.chars := by
  constructor
  · intro heq
    by_cases hline : '\n' ∈ t.chars.takeWhile isWhiteSpace
    · exact .inl hline
    · refine .inr fun hkeyword => ?_
      obtain ⟨line, stop, -, htext⟩ := stepBody_of_opensKeyword hline hkeyword
      exact stepBody_ne_text hkeyword line stop (heq.symm.trans htext)
  · rintro (hline | hkeyword)
    · exact stepBody_of_newline hline
    · exact stepBody_of_not_opensKeyword hkeyword

/-- Within a line the header of a clause ends a body exactly if a line feed is in the white space in
front of it. -/
theorem stepBody_eq_closeClause_iff (h : OpensClause t.skipWhiteSpace.chars) :
    stepBody o (frame :: outer) nodes false t =
        closeClause o frame nodes (fun block => openClause outer block t.skipWhiteSpace) ↔
      '\n' ∈ t.chars.takeWhile isWhiteSpace := by
  rw [← stepBody_of_opensClause h, stepBody_eq_lineStart_iff,
    or_iff_left (not_not_intro (.inl h))]

/-! ## Behind a fallthrough -/

theorem ReadsFallthrough.endsLine {place : Fragment (List Char)}
    (h : ReadsFallthrough cs place ds) : EndsLine ds := by
  obtain ⟨-, hrest⟩ := h
  exact hrest

/-- A `fallthrough` that a step reads leaves the body at the end of a line. -/
theorem endsLine_of_step
    (h : step o (.body around nodes lineStart) t =
      .advance events (.body around (nodes ++ [.fallthrough keyword]) false) rest) :
    EndsLine rest.chars := by
  have ht : t.Fits (t.offset + byteLength t.chars) := rfl
  obtain ⟨node, hnode, hmap⟩ := (Advances.of_step ht h).2.exists_node
  cases hnode with
  | fallthrough _ _ hkeyword => exact hkeyword.endsLine
  | text | output | switch => cases hmap

theorem EndsLine.carriageReturn (h : EndsLine cs) (hline : '\n' ∉ cs.takeWhile isWhiteSpace) :
    cs = [] ∨ ∃ more, cs = '\r' :: more ∧ '\n' ∉ more.head? := by
  cases cs with
  | nil => exact .inl rfl
  | cons c more =>
    have hbreak : c = '\n' ∨ c = '\r' := by simpa [isLineBreak] using h c rfl
    rcases hbreak with rfl | rfl
    · exact absurd List.mem_cons_self hline
    · refine .inr ⟨more, rfl, fun hnewline => hline ?_⟩
      obtain ⟨more, rfl⟩ := List.head?_eq_some_iff.1 hnewline
      exact List.mem_cons_of_mem _ List.mem_cons_self

/-- Under the rules on `fallthrough` no template comes of a body that goes on behind one with the
header of a clause within a line. -/
theorem run_ne_ok_of_opensClause (hplacement : o.placement = true)
    (hline : '\n' ∉ rest.chars.takeWhile isWhiteSpace)
    (hclause : OpensClause rest.skipWhiteSpace.chars) (template : Template Nat) :
    (run o (.body (frame :: outer) (nodes ++ [.fallthrough keyword]) false) rest).result ≠
      .ok template := by
  have hfits : rest.Fits (rest.offset + byteLength rest.chars) := rfl
  rw [Ne, run_eq_ok_iff hfits]
  intro hdemands
  have hends : ¬EndsBody (outer.length + 1) false rest.skipWhiteSpace.chars := by
    rw [endsBody_succ_iff]
    rintro (hbrace | ⟨hfalse, -⟩)
    · exact not_opensClause_of_closes hbrace hclause
    · cases hfalse
  have hon := (readsOn_chars_iff rest).1 hdemands
  simp only [Bool.false_or, List.contains_eq_mem, decide_eq_false hline] at hon
  rcases hon with ⟨hend, -⟩ | ⟨-, node, mid, -, more, stop, -, hearly, -⟩
  · exact hends hend
  · have hnone := Options.enforced_eq_none_iff.1 hearly hplacement
    refine earlyFallthrough?_eq_none_iff.1 hnone keyword ?_
    rw [List.append_assoc (nodes ++ [_]), List.singleton_append,
      List.dropLast_append_of_ne_nil (List.cons_ne_nil _ _)]
    exact List.mem_append_left _ (List.mem_append_right _ List.mem_cons_self)

/-- Every `fallthrough` that a step reads in a clause ends its line for its reader, and the body
goes on behind it as at the start of a line where a line feed shows that the line has ended: then
the header of a clause ends the body. Behind a carriage return by itself the header is text. -/
theorem fallthroughLine_of_step
    (h : step o (.body (frame :: outer) nodes lineStart) t =
      .advance events (.body (frame :: outer) (nodes ++ [.fallthrough keyword]) false) rest) :
    FallthroughLine o frame outer (nodes ++ [.fallthrough keyword]) rest := by
  have hends := endsLine_of_step h
  refine ⟨hends, stepBody_eq_lineStart_iff, stepBody_eq_closeClause_iff, hends.carriageReturn, ?_⟩
  intro hclause hline
  exact ⟨stepBody_of_opensKeyword hline (.inl hclause),
    fun hplacement => run_ne_ok_of_opensClause hplacement hline hclause⟩

/-- The header of the second clause is text of the first one, whose `fallthrough` is then
misplaced. -/
theorem fallthroughLine_of_step_carriageReturn :
    let frame : Frame := ⟨⟨[], 0, ⟨"x", ⟨7, 8⟩⟩, []⟩, .case ⟨"1", ⟨16, 17⟩⟩⟩
    let keyword : Fragment Nat := ⟨"fallthrough", ⟨19, 30⟩⟩
    let rest : Tail := ⟨30, "\rcase 2:\n\x7d\n".toList⟩
    step {} (.body [frame] [] true) ⟨19, "fallthrough\rcase 2:\n\x7d\n".toList⟩ =
        .advance [] (.body [frame] [.fallthrough keyword] false) rest ∧
      FallthroughLine {} frame [] [.fallthrough keyword] rest ∧
      OpensClause rest.skipWhiteSpace.chars ∧ '\n' ∉ rest.chars.takeWhile isWhiteSpace ∧
      parse "switch x \x7b\ncase 1:\nfallthrough\rcase 2:\n\x7d\n" =
        .error ⟨⟨19, 3, 1⟩, .fallthroughNotLast⟩ := by
  intro frame keyword rest
  have hstep : step {} (.body [frame] [] true) ⟨19, "fallthrough\rcase 2:\n\x7d\n".toList⟩ =
      .advance [] (.body [frame] [.fallthrough keyword] false) rest := rfl
  refine ⟨hstep, fallthroughLine_of_step hstep, ?_, by decide, by decide +kernel⟩
  exact .inl ⟨"2:\n\x7d\n".toList, rfl⟩

end SwitchMarkup

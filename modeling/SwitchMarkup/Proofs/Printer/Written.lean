import SwitchMarkup.Proofs.Grammar.Extension
import SwitchMarkup.Proofs.Printer.Printable

/-!
# What is written can be read

The canonical source of a printable template is derived node by node, each in front of what is
written behind it. A node that begins a line is read at the start of one, and text that goes on
with a line, behind an expression, is not.
-/

namespace SwitchMarkup

open Items

variable {π : Type} {k d : Nat} {line : LineState} {more rest stop : List Char}
  {reads : List (Node (List Char))}

/-! ## Where a node stands on its line -/

theorem LineState.isRun_lead (line : LineState) (d : Nat) (node : Node π) :
    IsRun isWhiteSpace (line.lead d node) := by
  have htabs : IsRun isWhiteSpace (List.replicate d '\t') := isRun_replicate (by decide) d
  rw [LineState.lead]
  split
  · exact isRun_nil
  · cases line with
    | fresh => exact htabs
    | text | output => exact isRun_cons.2 ⟨by decide, htabs⟩

/-- What leads to a node puts it at the start of a line, unless the node goes on with one. -/
theorem LineState.lineStart_lead (line : LineState) (d : Nat) (node : Node π) :
    (line == .fresh || (line.lead d node).contains '\n') = !line.admits node := by
  cases line <;> cases node <;> rfl

theorem readsBody_lead_iff {o : Options} (node : Node π) :
    ReadsBody o k (line == .fresh) (line.lead d node ++ more) reads stop ↔
      ReadsBody o k (!line.admits node) more reads stop := by
  rw [readsBody_gap_iff (line.isRun_lead d node), LineState.lineStart_lead]

/-- Text is written in front of a brace or of the end of its line. -/
theorem stops_write_text (d : Nat) (nodes : List (Node π)) (rest : List Char) :
    Stops (fun c => !endsText c) (Template.write d .text nodes rest) := by
  cases nodes with
  | nil => exact stops_cons.2 rfl
  | cons node nodes => cases node <;> exact stops_cons.2 rfl

/-! ## One node in front of the others -/

/-- Legal text is read back from where it is printed, unless it looks like a keyword there. -/
theorem readsBody_text {content : Fragment π} (hlegal : LegalText content.value)
    (hkeyword : line ≠ .output → ¬LooksLikeKeyword (k != 0) content.value)
    (hstop : Stops (fun c => !endsText c) more) (hmore : ReadsBody {} k false more reads stop) :
    ∃ read, ReadsBody {} k (!line.admits (.text content)) (Node.write d (.text content) more)
      (read :: reads) stop ∧ read.map (fun _ => ()) = (Node.text content).map fun _ => () := by
  obtain ⟨piece, hpiece, hvalue⟩ := readsText_value hlegal hstop
  have hfree : (!line.admits (.text content)) = true → ¬LooksLikeKeyword (k != 0) content.value := by
    intro hline
    refine hkeyword ?_
    rintro rfl
    cases hline
  refine ⟨.text piece, ?_, ?_⟩
  · rw [Node.write]
    refine ReadsBody.cons (.text hpiece fun hline => ?_) (fun hk hline => ?_) hmore
    · rw [opensStatement_append_iff hstop]
      exact fun hopens => hfree hline (.inl hopens)
    · rw [opensClause_append_iff hstop]
      exact fun hopens => hfree hline (.inr ⟨by simpa using hk, hopens⟩)
  · rw [Node.map, Node.map, Fragment.map, hvalue]
    rfl

/-- A legal expression is read back from where it is printed. -/
theorem readsBody_output {expression : Fragment π} (hlegal : Legal .braced expression.value)
    (hvalue : expression.value ≠ "") (hmore : ReadsBody {} k false more reads stop) :
    ∃ read, ReadsBody {} k (!line.admits (.output expression))
      (Node.write d (.output expression) more) (read :: reads) stop ∧
        read.map (fun _ => ()) = (Node.output expression).map fun _ => () := by
  obtain ⟨piece, hpiece, hpieceValue⟩ := readsOutput_spaced hlegal hvalue more
  refine ⟨.output piece, ReadsBody.cons (.output hpiece) (fun _ _ hopens => ?_) hmore, ?_⟩
  · exact absurd hopens.head (by decide)
  · rw [Node.map, Node.map, Fragment.map, hpieceValue]
    rfl

/-- A `fallthrough` in a clause is read back from where it is printed. -/
theorem readsBody_fallthrough {keyword : Fragment π} (hk : k ≠ 0)
    (hkeyword : keyword.value = "fallthrough") (hmore : ReadsBody {} k true more reads stop) :
    ∃ read, ReadsBody {} k (!line.admits (.fallthrough keyword))
      (Node.write d (.fallthrough keyword) more) (read :: reads) stop ∧
        read.map (fun _ => ()) = (Node.fallthrough keyword).map fun _ => () := by
  obtain ⟨piece, hpiece, hvalue⟩ := readsBody_fallthroughLine hk hmore
  have hline : (!line.admits (.fallthrough keyword)) = true := by cases line <;> rfl
  refine ⟨.fallthrough piece, ?_, ?_⟩
  · rw [hline]
    exact hpiece
  · rw [Node.map, Node.map, Fragment.map, hvalue, Fragment.map, hkeyword]
    rfl

/-- A `switch` is read back from where it is printed, if its clauses are. -/
theorem readsBody_switch {tag : Fragment π} {clauses : List (Clause π)} {block : Span π}
    {readClauses : List (Clause (List Char))} (htag : Legal .tag tag.value)
    (hclauses : ReadsClauses {} k
      (Clause.writeAll d clauses (List.replicate d '\t' ++ '\x7d' :: '\n' :: more)) readClauses
      ('\n' :: more))
    (hshape : Clause.mapAll (fun _ => ()) readClauses = Clause.mapAll (fun _ => ()) clauses)
    (hfinal : finalFallthrough? clauses = none) (hmore : ReadsBody {} k true more reads stop) :
    ∃ read, ReadsBody {} k (!line.admits (.switch tag clauses block))
      (Node.write d (.switch tag clauses block) more) (read :: reads) stop ∧
        read.map (fun _ => ()) = (Node.switch tag clauses block).map fun _ => () := by
  obtain ⟨piece, hpiece, hvalue⟩ := readsSwitchHeader_openingLine htag
    (Clause.writeAll d clauses (List.replicate d '\t' ++ '\x7d' :: '\n' :: more))
  have hline : (!line.admits (.switch tag clauses block)) = true := by cases line <;> rfl
  have hfinal' := (finalFallthrough?_eq_none_of_shape hshape).2 hfinal
  have hnode := ReadsNode.switch (o := {}) hline hpiece rfl hclauses
    (Options.enforced_eq_none_iff.2 fun _ => hfinal')
  refine ⟨_, ReadsBody.cons hnode (fun _ _ hopens => ?_) (readsBody_newline_iff.2 hmore), ?_⟩
  · obtain ⟨content, hcontent, -⟩ := hnode.exists_text_of_opensClause hopens
    cases hcontent
  · rw [Node.map, Node.map, Fragment.map, hvalue, hshape]
    rfl

/-! ## All nodes and clauses -/

/-- What is written behind the body of a clause ends it. -/
theorem exists_readsBody_writeAll (k d : Nat) (clauses : List (Clause π)) (rest : List Char) :
    ∃ stop, ReadsBody {} (k + 1) true
      (Clause.writeAll d clauses (List.replicate d '\t' ++ '\x7d' :: rest)) [] stop := by
  have hends : ∀ n stop, EndsBody (k + 1) true stop →
      ReadsBody {} (k + 1) true (List.replicate n '\t' ++ stop) [] stop := by
    intro n stop hend
    rw [readsBody_gap_iff (isRun_replicate (by decide) n), Bool.true_or]
    exact (readsBody_iff hend.stops).2 (.inl ⟨hend, rfl, rfl⟩)
  cases clauses with
  | nil => exact ⟨_, hends d _ (endsBody_succ_iff.2 (.inl (List.prefix_append ['\x7d'] rest)))⟩
  | cons clause clauses =>
    obtain ⟨header, children⟩ := clause
    exact ⟨_, hends (d + 1) _ (endsBody_succ_iff.2 (.inr ⟨rfl, header.opensClause_line _⟩))⟩

mutual

/-- Printable nodes are read back from what is written, in front of anything that ends a body. -/
theorem Template.exists_reads_write :
    ∀ (nodes : List (Node π)) (joined : Bool) (line : LineState) (k d : Nat) {rest stop : List Char},
      (joined = true → line = .output) → Template.PrintableIn (k != 0) joined nodes →
      Template.Spelled nodes → ReadsBody {} k true rest [] stop →
      ∃ reads, ReadsBody {} k (line == .fresh) (Template.write d line nodes rest) reads stop ∧
        Template.shape reads = Template.shape nodes
  | [], _, line, _, _, _, _, _, _, _, hrest => by
    refine ⟨[], ?_, rfl⟩
    cases line with
    | fresh => exact hrest
    | text | output => exact readsBody_newline_iff.2 hrest
  | .text content :: nodes, joined, line, k, d, rest, stop, hjoined, hp, hs, hrest => by
    obtain ⟨⟨hlegal, hkeyword⟩, hnodes⟩ := hp
    obtain ⟨reads, hreads, hshape⟩ :=
      Template.exists_reads_write nodes false .text k d nofun hnodes hs.2 hrest
    -- only behind an expression does the text not come to stand at the start of a line
    obtain ⟨read, hread, hnode⟩ := readsBody_text hlegal
      (fun hline => hkeyword (Bool.eq_false_iff.2 (mt hjoined hline)))
      (stops_write_text d nodes rest) hreads
    exact ⟨read :: reads, (readsBody_lead_iff _).2 hread, congr (congrArg _ hnode) hshape⟩
  | .output expression :: nodes, _, line, k, d, rest, stop, _, hp, hs, hrest => by
    obtain ⟨⟨hvalue, hlegal⟩, hnodes⟩ := hp
    obtain ⟨reads, hreads, hshape⟩ :=
      Template.exists_reads_write nodes true .output k d (fun _ => rfl) hnodes hs.2 hrest
    obtain ⟨read, hread, hnode⟩ := readsBody_output hlegal hvalue hreads
    exact ⟨read :: reads, (readsBody_lead_iff _).2 hread, congr (congrArg _ hnode) hshape⟩
  | .fallthrough keyword :: nodes, _, line, k, d, rest, stop, _, hp, hs, hrest => by
    obtain ⟨hk, hnodes⟩ := hp
    obtain ⟨reads, hreads, hshape⟩ :=
      Template.exists_reads_write nodes false .fresh k d nofun hnodes hs.2 hrest
    obtain ⟨read, hread, hnode⟩ := readsBody_fallthrough (bne_iff_ne.1 hk) hs.1 hreads
    exact ⟨read :: reads, (readsBody_lead_iff _).2 hread, congr (congrArg _ hnode) hshape⟩
  | .switch tag clauses block :: nodes, _, line, k, d, rest, stop, _, hp, hs, hrest => by
    obtain ⟨⟨htag, hclauses⟩, hnodes⟩ := hp
    obtain ⟨reads, hreads, hshape⟩ :=
      Template.exists_reads_write nodes false .fresh k d nofun hnodes hs.2 hrest
    obtain ⟨readClauses, hreadClauses, hshapes⟩ := Clause.exists_reads_writeAll clauses k d
      ('\n' :: Template.write d .fresh nodes rest) hclauses hs.1
    obtain ⟨read, hread, hnode⟩ :=
      readsBody_switch htag hreadClauses hshapes hclauses.finalFallthrough? hreads
    exact ⟨read :: reads, (readsBody_lead_iff _).2 hread, congr (congrArg _ hnode) hshape⟩

/-- Printable clauses are read back from what is written, up to the closing brace behind them. -/
theorem Clause.exists_reads_writeAll :
    ∀ (clauses : List (Clause π)) (k d : Nat) (rest : List Char),
      Clause.AllPrintable clauses → Clause.AllSpelled clauses →
      ∃ reads, ReadsClauses {} k
        (Clause.writeAll d clauses (List.replicate d '\t' ++ '\x7d' :: rest)) reads rest ∧
        Clause.mapAll (fun _ => ()) reads = Clause.mapAll (fun _ => ()) clauses
  | [], _, d, rest, _, _ => ⟨[], .done (isRun_replicate (by decide) d), rfl⟩
  | ⟨header, children⟩ :: clauses, k, d, rest, hp, hs => by
    obtain ⟨hheader, hchildren, hplace, -, hclauses⟩ := hp
    obtain ⟨reads, hreads, hshapes⟩ := Clause.exists_reads_writeAll clauses k d rest hclauses hs.2
    obtain ⟨stop, hstop⟩ := exists_readsBody_writeAll k d clauses rest
    obtain ⟨readChildren, hbody, hshape⟩ :=
      Template.exists_reads_write children false .fresh (k + 1) (d + 2) nofun hchildren hs.1 hstop
    obtain ⟨read, hread, hmap⟩ := readsClauseHeader_line hheader (Template.write (d + 2) .fresh
      children (Clause.writeAll d clauses (List.replicate d '\t' ++ '\x7d' :: rest)))
    have hearly : earlyFallthrough? readChildren = none :=
      (earlyFallthrough?_eq_none_of_shape hshape).2 (earlyFallthrough?_eq_none_iff.2 hplace)
    obtain ⟨gap, hgap, hcut⟩ := hstop.exists_gap
    rw [hcut, readsClauses_gap_iff hgap] at hreads
    refine ⟨⟨read, readChildren⟩ :: reads, ?_, ?_⟩
    · exact .clause (isRun_replicate (by decide) (d + 1)) hread (readsBody_newline_iff.2 hbody)
        (Options.enforced_eq_none_iff.2 fun _ => hearly) hreads
    · rw [Clause.mapAll_cons, Clause.mapAll_cons, hshapes, Clause.map, Clause.map, hmap]
      exact congrArg (Clause.mk _ · :: _) hshape

end

end SwitchMarkup

import SwitchMarkup.Proofs.Grammar.Extraction
import SwitchMarkup.Proofs.Printer.Written

/-!
# What is read back has been printable

Whatever a derivation reads is legal. So a template that is read back from its canonical source has
only legal expressions and text in it, and then it is known from where on each node was read: the
derivation follows the writing step by step, and every text that stands at the start of a line has
not been taken for a keyword.
-/

namespace SwitchMarkup

open Items

variable {π : Type} {o : Options} {k d : Nat} {lineStart : Bool} {cs mid more rest stop : List Char}
  {piece : Fragment (List Char)} {read : Node (List Char)} {reads : List (Node (List Char))}

/-! ## What is read is legal -/

theorem ReadsText.legal (h : ReadsText cs piece rest) : LegalText piece.value := by
  obtain @⟨run, rest, hne, hstart, hrun, -⟩ := h
  have htrim := trim_eq_trimEnd hstart
  refine ⟨?_, ?_, ?_⟩
  · rw [Fragment.value_ofRun, String.toList_ofList, trim_trim]
  · rw [Fragment.value_ofRun, Ne, ← String.toList_eq_nil_iff, String.toList_ofList, htrim]
    cases run with
    | nil => exact absurd rfl hne
    | cons c run => exact trimEnd_ne_nil (stops_cons.1 hstart)
  · obtain ⟨pad, -, hpad⟩ := exists_trimEnd_append run
    rw [hpad, isRun_append] at hrun
    rw [Fragment.value_ofRun, String.toList_ofList, htrim]
    exact hrun.1

theorem legal_ofRun {kind : Kind} {run : List Char} (h : Covers kind run) (rest : List Char) :
    Legal kind (Fragment.ofRun run rest).value := by
  rw [Fragment.value_ofRun]
  refine ⟨?_, ?_⟩
  · rw [String.toList_ofList, trim_trim]
  · rw [String.toList_ofList]
    exact h.trim

theorem ReadsOutput.legal (h : ReadsOutput cs piece rest) :
    piece.value ≠ "" ∧ Legal .braced piece.value := by
  obtain @⟨run, rest, hrun, hvalue⟩ := h
  refine ⟨?_, legal_ofRun hrun _⟩
  rw [Fragment.value_ofRun, Ne, ← String.toList_eq_nil_iff, String.toList_ofList]
  exact hvalue

theorem ReadsFallthrough.value_eq (h : ReadsFallthrough cs piece rest) :
    piece.value = "fallthrough" := by
  obtain @⟨pad, rest, -, -⟩ := h
  rw [Fragment.value_ofRun]
  decide

theorem ReadsSwitchHeader.legal (h : ReadsSwitchHeader cs piece rest) :
    Legal .tag piece.value := by
  obtain @⟨gap, run, pad, lineEnd, rest, -, -, hrun, -, -⟩ := h
  exact legal_ofRun hrun _

theorem ReadsClauseHeader.legal (h : ReadsClauseHeader cs (.case piece) rest) :
    Legal .list piece.value := by
  obtain @⟨gap, run, rest, -, -, -, hrun⟩ := h
  exact legal_ofRun hrun _

theorem ReadsText.value_begins (h : ReadsText cs piece rest) : piece.value.toList <+: cs := by
  obtain @⟨run, rest, -, hstart, -, -⟩ := h
  obtain ⟨pad, -, hpad⟩ := exists_trimEnd_append run
  have hbegins : trimEnd run <+: run := ⟨pad, hpad.symm⟩
  rw [Fragment.value_ofRun, String.toList_ofList, trim_eq_trimEnd hstart]
  exact hbegins.trans (List.prefix_append run rest)

/-- Text at the start of a line has not been taken for a keyword. -/
theorem ReadsNode.not_looksLikeKeyword (h : ReadsNode o k true cs (.text piece) rest)
    (hmore : ¬EndsBody k true cs) : ¬LooksLikeKeyword (k != 0) piece.value := by
  cases h with
  | text hpiece hkeyword =>
    have hbegins := hpiece.value_begins
    rintro (hstatement | ⟨hk, hclause⟩)
    · exact hkeyword rfl (hstatement.imp (·.trans hbegins) (·.trans hbegins))
    · rw [EndsBody, if_neg (bne_iff_ne.1 hk)] at hmore
      exact hmore (.inr ⟨rfl, hclause.imp (·.trans hbegins) (·.trans hbegins)⟩)

/-! ## One node in front of the others -/

theorem LegalText.stops_append {value : String} (h : LegalText value) (more : List Char) :
    Stops isWhiteSpace (value.toList ++ more) := by
  have hstart := (trim_eq_self_iff.1 h.trimmed).1
  cases hcs : value.toList with
  | nil => exact absurd (String.toList_eq_nil_iff.1 hcs) h.nonempty
  | cons c cs =>
    rw [hcs] at hstart
    exact stops_cons.2 (stops_cons.1 hstart)

/-- Text that was printed and read back is legal, does not look like a keyword, and what is printed
behind it is read on. -/
theorem printable_text {content : Fragment π}
    (h : ReadsBody o k lineStart (Node.write d (.text content) more) (read :: reads) stop)
    (hshape : read.map (fun _ => ()) = (Node.text content).map fun _ => ())
    (hstop : Stops (fun c => !endsText c) more) :
    LegalText content.value ∧
      (lineStart = true → ¬LooksLikeKeyword (k != 0) content.value) ∧
      ReadsBody o k false more reads stop := by
  cases read with
  | output | fallthrough | switch => cases hshape
  | text piece =>
    have hvalue : piece.value = content.value := congrArg Fragment.value (Node.text.inj hshape)
    have hlegal : LegalText content.value := by
      obtain ⟨lineStart', ds, mid, hnode⟩ := h.exists_readsNode
      cases hnode with
      | text hpiece _ => exact hvalue ▸ hpiece.legal
    obtain ⟨hmore, mid, hnode, hnodes⟩ := h.exists_node (hlegal.stops_append more)
    have hkeyword : lineStart = true → ¬LooksLikeKeyword (k != 0) content.value := by
      rintro rfl
      exact hvalue ▸ hnode.not_looksLikeKeyword hmore
    cases hnode with
    | text hpiece _ =>
      obtain ⟨piece', hpiece', -⟩ := readsText_value hlegal hstop
      rw [hpiece.rest_unique hpiece'] at hnodes
      exact ⟨hlegal, hkeyword, hnodes⟩

/-- An expression that was printed and read back is legal, and what is printed behind it is read
on. -/
theorem printable_output {expression : Fragment π}
    (h : ReadsBody o k lineStart (Node.write d (.output expression) more) (read :: reads) stop)
    (hshape : read.map (fun _ => ()) = (Node.output expression).map fun _ => ()) :
    expression.value ≠ "" ∧ Legal .braced expression.value ∧
      ReadsBody o k false more reads stop := by
  cases read with
  | text | fallthrough | switch => cases hshape
  | output piece =>
    have hvalue : piece.value = expression.value :=
      congrArg Fragment.value (Node.output.inj hshape)
    obtain ⟨-, mid, hnode, hnodes⟩ := h.exists_node (stops_cons.2 (by decide))
    cases hnode with
    | output hpiece =>
      obtain ⟨hne, hlegal⟩ := hpiece.legal
      rw [hvalue] at hne hlegal
      obtain ⟨piece', hpiece', -⟩ := readsOutput_spaced hlegal hne more
      rw [hpiece.rest_unique hpiece'] at hnodes
      exact ⟨hne, hlegal, hnodes⟩

/-- A `fallthrough` that was printed and read back is in a clause and has its keyword for its
value. -/
theorem printable_fallthrough {keyword : Fragment π}
    (h : ReadsBody o k lineStart (Node.write d (.fallthrough keyword) more) (read :: reads) stop)
    (hshape : read.map (fun _ => ()) = (Node.fallthrough keyword).map fun _ => ()) :
    k ≠ 0 ∧ keyword.value = "fallthrough" ∧ ReadsBody o k true more reads stop := by
  cases read with
  | text | output | switch => cases hshape
  | fallthrough piece =>
    have hvalue : piece.value = keyword.value :=
      congrArg Fragment.value (Node.fallthrough.inj hshape)
    obtain ⟨-, mid, hnode, hnodes⟩ := h.exists_node
      (stops_of_isPrefix (by decide) (stops_cons.2 (by decide)) (List.prefix_append ..))
    cases hnode with
    | fallthrough _ hk hpiece =>
      obtain ⟨piece', hpiece', -⟩ := readsFallthrough_line more
      rw [hpiece.rest_unique hpiece', readsBody_newline_iff] at hnodes
      exact ⟨hk, hvalue ▸ hpiece.value_eq, hnodes⟩

/-- A `switch` that was printed and read back has a legal tag and clauses that are read back. -/
theorem printable_switch {tag : Fragment π} {clauses : List (Clause π)} {block : Span π}
    (h : ReadsBody o k lineStart (Node.write d (.switch tag clauses block) more) (read :: reads)
      stop)
    (hshape : read.map (fun _ => ()) = (Node.switch tag clauses block).map fun _ => ()) :
    Legal .tag tag.value ∧ ∃ readClauses mid,
      ReadsClauses o k
        (Clause.writeAll d clauses (List.replicate d '\t' ++ '\x7d' :: '\n' :: more)) readClauses
        mid ∧
      Clause.mapAll (fun _ => ()) readClauses = Clause.mapAll (fun _ => ()) clauses ∧
      o.enforced (finalFallthrough? readClauses) = none ∧ ReadsBody o k false mid reads stop := by
  cases read with
  | text | output | fallthrough => cases hshape
  | switch piece readClauses readBlock =>
    obtain ⟨htag, hclauses, -⟩ := Node.switch.inj hshape
    have hvalue : piece.value = tag.value := congrArg Fragment.value htag
    have hstart : Stops isWhiteSpace (Node.write d (.switch tag clauses block) more) := by
      rw [Node.write, openingLine, List.append_assoc]
      exact stops_of_isPrefix (by decide) (stops_cons.2 (by decide)) (List.prefix_append ..)
    obtain ⟨-, mid, hnode, hnodes⟩ := h.exists_node hstart
    generalize htext : Node.write d (.switch tag clauses block) more = text at hnode
    cases hnode with
    | switch _ hheader _ hread hfinal =>
      have hlegal : Legal .tag tag.value := hvalue ▸ hheader.legal
      rw [← htext, Node.write] at hheader
      obtain ⟨piece', hheader', -⟩ := readsSwitchHeader_openingLine hlegal
        (Clause.writeAll d clauses (List.replicate d '\t' ++ '\x7d' :: '\n' :: more))
      rw [hheader.rest_unique hheader'] at hread
      exact ⟨hlegal, readClauses, mid, hread, hclauses, hfinal, hnodes⟩

/-- A header that is read back is legal: an empty list would be no list at all. -/
theorem legal_header {header : Header π} {readHeader : Header (List Char)}
    (h : ReadsClauseHeader (header.line ++ more) readHeader mid)
    (hshape : readHeader.map (fun _ => ()) = header.map fun _ => ()) : header.Legal := by
  cases header with
  | default keyword =>
    intro list hlist
    cases hlist
  | case list =>
    cases readHeader with
    | default keyword => cases hshape
    | case piece =>
      have hvalue : piece.value = list.value := congrArg Fragment.value (Header.case.inj hshape)
      rintro _ ⟨rfl⟩
      refine ⟨?_, hvalue ▸ h.legal⟩
      intro hempty
      rw [Header.line, hempty] at h
      generalize htext : Keyword.spaced Keyword.case ++ ("".toList ++ [':', '\n']) ++ more = text at h
      cases h with
      | @case gap run _ hgap hne hstart hrun =>
        rw [List.append_assoc] at htext
        have hline : [] ++ ':' :: '\n' :: more = gap ++ (run ++ ':' :: mid) :=
          List.append_cancel_left htext
        obtain ⟨-, hcolon⟩ := run_append_inj hline isRun_nil (stops_cons.2 rfl) hgap
          (hstart.append_cons rfl mid)
        have hcut : [] ++ ':' :: '\n' :: more = run ++ ':' :: mid := hcolon
        exact hne (covers_append_inj hcut covers_nil stuck_list_colon hrun stuck_list_colon).1.symm

/-! ## All nodes and clauses -/

/-- What does not go on with a line begins one. -/
theorem LineState.not_admits_text {line : LineState} {content : Fragment π} (h : line ≠ .output) :
    (!line.admits (.text content)) = true := by
  cases line with
  | fresh | text => rfl
  | output => exact absurd rfl h

/-- A `fallthrough` in the last clause would be found there. -/
theorem not_mem_of_finalFallthrough? {header : Header π} {children : List (Node π)}
    (hfinal : finalFallthrough? [⟨header, children⟩] = none)
    (hearly : earlyFallthrough? children = none) (keyword : Fragment π) :
    .fallthrough keyword ∉ children := by
  intro hmem
  obtain ⟨others, rfl, -⟩ := exists_append_of_earlyFallthrough? hearly hmem
  refine finalFallthrough?_eq_none_iff.1 hfinal _ rfl keyword ?_
  exact List.getLast?_concat

mutual

/-- Nodes that are read back are printable, and what ended their body stands right behind them. -/
theorem Template.printableIn_of_reads (hplacement : o.placement = true) :
    ∀ (nodes : List (Node π)) (joined : Bool) (line : LineState) (k d : Nat) {rest stop : List Char}
      {reads : List (Node (List Char))}, (joined = false → line ≠ .output) →
      ReadsBody o k (line == .fresh) (Template.write d line nodes rest) reads stop →
      Template.shape reads = Template.shape nodes →
      Template.PrintableIn (k != 0) joined nodes ∧ Template.Spelled nodes ∧
        ReadsBody o k true rest [] stop
  | [], _, line, _, _, _, _, reads, _, h, hshape => by
    obtain rfl : reads = [] := by
      cases reads with
      | nil => rfl
      | cons => cases hshape
    refine ⟨trivial, trivial, ?_⟩
    cases line with
    | fresh => exact h
    | text | output => exact readsBody_newline_iff.1 h
  | .text content :: nodes, _, line, k, d, rest, _, _, hjoined, h, hshape => by
    obtain ⟨read, reads, rfl, hread, hreads⟩ := Template.exists_of_shape_eq_cons hshape
    obtain ⟨hlegal, hkeyword, hmore⟩ :=
      printable_text ((readsBody_lead_iff _).1 h) hread (stops_write_text d nodes rest)
    obtain ⟨hp, hs, hrest⟩ := Template.printableIn_of_reads hplacement nodes false .text k d
      (fun _ => nofun) hmore hreads
    exact ⟨⟨⟨hlegal, fun hj => hkeyword (LineState.not_admits_text (hjoined hj))⟩, hp⟩,
      ⟨trivial, hs⟩, hrest⟩
  | .output expression :: nodes, _, line, k, d, _, _, _, _, h, hshape => by
    obtain ⟨read, reads, rfl, hread, hreads⟩ := Template.exists_of_shape_eq_cons hshape
    obtain ⟨hne, hlegal, hmore⟩ := printable_output ((readsBody_lead_iff _).1 h) hread
    obtain ⟨hp, hs, hrest⟩ := Template.printableIn_of_reads hplacement nodes true .output k d
      nofun hmore hreads
    exact ⟨⟨⟨hne, hlegal⟩, hp⟩, ⟨trivial, hs⟩, hrest⟩
  | .fallthrough keyword :: nodes, _, line, k, d, _, _, _, _, h, hshape => by
    obtain ⟨read, reads, rfl, hread, hreads⟩ := Template.exists_of_shape_eq_cons hshape
    obtain ⟨hk, hvalue, hmore⟩ := printable_fallthrough ((readsBody_lead_iff _).1 h) hread
    obtain ⟨hp, hs, hrest⟩ := Template.printableIn_of_reads hplacement nodes false .fresh k d
      (fun _ => nofun) hmore hreads
    exact ⟨⟨bne_iff_ne.2 hk, hp⟩, ⟨hvalue, hs⟩, hrest⟩
  | .switch tag clauses block :: nodes, _, line, k, d, _, _, _, _, h, hshape => by
    obtain ⟨read, reads, rfl, hread, hreads⟩ := Template.exists_of_shape_eq_cons hshape
    obtain ⟨htag, readClauses, mid, hclauses, hshapes, hfinal, hmore⟩ :=
      printable_switch ((readsBody_lead_iff _).1 h) hread
    have hfinal' := (finalFallthrough?_eq_none_of_shape hshapes).1
      (Options.enforced_eq_none_iff.1 hfinal hplacement)
    obtain ⟨hcp, hcs, rfl⟩ :=
      Clause.allPrintable_of_reads hplacement clauses k d hclauses hshapes hfinal'
    obtain ⟨hp, hs, hrest⟩ := Template.printableIn_of_reads hplacement nodes false .fresh k d
      (fun _ => nofun) (readsBody_newline_iff.1 hmore) hreads
    exact ⟨⟨⟨htag, hcp⟩, hp⟩, ⟨hcs, hs⟩, hrest⟩

/-- Clauses that are read back are printable, and are read up to the closing brace behind them. -/
theorem Clause.allPrintable_of_reads (hplacement : o.placement = true) :
    ∀ (clauses : List (Clause π)) (k d : Nat) {rest mid : List Char}
      {reads : List (Clause (List Char))},
      ReadsClauses o k (Clause.writeAll d clauses (List.replicate d '\t' ++ '\x7d' :: rest)) reads
        mid →
      Clause.mapAll (fun _ => ()) reads = Clause.mapAll (fun _ => ()) clauses →
      finalFallthrough? clauses = none →
      Clause.AllPrintable clauses ∧ Clause.AllSpelled clauses ∧ mid = rest
  | [], _, d, rest, mid, reads, h, hshapes, _ => by
    obtain rfl : reads = [] := by
      cases reads with
      | nil => rfl
      | cons => cases hshapes
    have hclose : Stops isWhiteSpace ('\x7d' :: rest) := stops_cons.2 (by decide)
    rw [Clause.writeAll, readsClauses_gap_iff (isRun_replicate (by decide) d),
      readsClauses_iff hclose] at h
    rcases h with ⟨hcut, -⟩ | ⟨_, _, _, _, _, -, -, -, -, hcons⟩
    · exact ⟨trivial, trivial, (List.cons_eq_cons.1 hcut).2.symm⟩
    · cases hcons
  | ⟨header, children⟩ :: clauses, k, d, rest, mid, reads, h, hshapes, hfinal => by
    rw [Clause.writeAll, Clause.write, readsClauses_gap_iff (isRun_replicate (by decide) (d + 1)),
      readsClauses_iff (header.opensClause_line _).stops] at h
    obtain ⟨hcut, -⟩ | ⟨readHeader, mid', readChildren, stop, readClauses, hheader, hbody, hearly,
      hclauses, rfl⟩ := h
    · have hopens := header.opensClause_line (Template.write (d + 2) .fresh children
        (Clause.writeAll d clauses (List.replicate d '\t' ++ '\x7d' :: rest)))
      rw [hcut] at hopens
      exact absurd hopens (not_opensClause_of_closes (List.prefix_append ['\x7d'] mid))
    · obtain ⟨hclause, hshapes'⟩ := List.cons_eq_cons.1 hshapes
      obtain ⟨hmap, hshape⟩ := Clause.mk.inj hclause
      have hlegal := legal_header hheader hmap
      obtain ⟨header', hheader', -⟩ := readsClauseHeader_line hlegal (Template.write (d + 2) .fresh
        children (Clause.writeAll d clauses (List.replicate d '\t' ++ '\x7d' :: rest)))
      rw [hheader.rest_unique hheader', readsBody_newline_iff] at hbody
      obtain ⟨hp, hs, hrest⟩ := Template.printableIn_of_reads hplacement children false .fresh
        (k + 1) (d + 2) (fun _ => nofun) hbody hshape
      obtain ⟨gap, hgap, htail⟩ := hrest.exists_gap
      have htail' := (readsClauses_gap_iff (o := o) hgap).2 hclauses
      rw [← htail] at htail'
      obtain ⟨hcp, hcs, hmid⟩ := Clause.allPrintable_of_reads hplacement clauses k d htail'
        hshapes' (finalFallthrough?_of_cons hfinal)
      have hplace := (earlyFallthrough?_eq_none_of_shape hshape).1
        (Options.enforced_eq_none_iff.1 hearly hplacement)
      refine ⟨⟨hlegal, hp, earlyFallthrough?_eq_none_iff.1 hplace, ?_, hcp⟩, ⟨hs, hcs⟩, hmid⟩
      rintro rfl
      exact not_mem_of_finalFallthrough? hfinal hplace

end

end SwitchMarkup

import SwitchMarkup.Proofs.Printer.RoundTrip
import SwitchMarkup.Proofs.Template.Blocks
import SwitchMarkup.Template.Equality

/-!
# Reading back a parsed template

A template that was parsed is not always read back from its canonical source. Behind the closing
brace of a switch a line can go on with text that begins like a keyword, and printing puts that text
at the start of a line; and a list can consist of white space that is no blank, of which printing
leaves nothing. Nothing else goes wrong.
-/

namespace SwitchMarkup

open Items

variable {π ρ : Type} {o : Options} {k : Nat} {lineStart inClause joined : Bool}
  {cs rest : List Char} {content : Fragment (List Char)}

/-! ## Reprintable templates -/

/-- No text behind a switch would be a keyword at the start of a line. -/
def Template.KeepsLines (inClause : Bool) (nodes : List (Node π)) : Prop :=
  ∀ tag clauses block content, [.switch tag clauses block, .text content] <:+: nodes →
    ¬LooksLikeKeyword inClause content.value

/-- The clause has no empty list, and its children keep their lines. -/
def Clause.Reprintable (clause : Clause π) : Prop :=
  clause.header.list? ≠ some "" ∧ Template.KeepsLines true clause.children

/-- At every depth, text keeps its line where that matters, and no list is empty. -/
def Template.Reprintable (t : Template π) : Prop :=
  Template.KeepsLines false t ∧
    ∀ clauses ∈ Template.blocks t, ∀ clause ∈ clauses, clause.Reprintable

theorem Template.KeepsLines.tail {node : Node π} {nodes : List (Node π)}
    (h : Template.KeepsLines inClause (node :: nodes)) : Template.KeepsLines inClause nodes :=
  fun tag clauses block content hpair =>
    h tag clauses block content (hpair.trans (List.infix_cons List.infix_rfl))

theorem Template.KeepsLines.of_map {f : π → ρ} {nodes : List (Node π)}
    (h : Template.KeepsLines inClause (Template.map f nodes)) :
    Template.KeepsLines inClause nodes := by
  intro tag clauses block content hpair
  rw [Template.map_eq_map] at h
  exact h (tag.map f) (Clause.mapAll f clauses) (block.map f) (content.map f)
    (hpair.map (Node.map f))

theorem Clause.Reprintable.of_map {f : π → ρ} {clause : Clause π}
    (h : (clause.map f).Reprintable) : clause.Reprintable := by
  obtain ⟨header, children⟩ := clause
  obtain ⟨hlist, hlines⟩ := h
  refine ⟨?_, hlines.of_map⟩
  cases header with
  | case list => exact hlist
  | default keyword => nofun

theorem Template.Reprintable.of_map {f : π → ρ} {t : Template π}
    (h : (Template.map f t).Reprintable) : t.Reprintable := by
  refine ⟨h.1.of_map, ?_⟩
  intro clauses hclauses clause hclause
  have hmem := List.mem_map_of_mem (f := Clause.mapAll f) hclauses
  rw [← Template.blocks_map] at hmem
  refine (h.2 _ hmem (clause.map f) ?_).of_map
  rw [Clause.mapAll_eq_map]
  exact List.mem_map_of_mem hclause

/-! ## Printable templates are reprintable -/

/-- Printable nodes keep their lines. -/
theorem Template.PrintableIn.keepsLines {nodes : List (Node π)}
    (h : Template.PrintableIn inClause joined nodes) : Template.KeepsLines inClause nodes := by
  induction nodes generalizing joined with
  | nil =>
    intro tag clauses block content hpair
    cases List.infix_nil.1 hpair
  | cons node nodes ih =>
    intro tag clauses block content hpair
    obtain ⟨-, hnodes⟩ := h
    rcases List.infix_cons_iff.1 hpair with hbegins | hpair
    · obtain ⟨rfl, more, rfl⟩ := List.cons_prefix_cons.1 hbegins
      exact hnodes.1.2 rfl
    · exact ih hnodes tag clauses block content hpair

theorem Header.Legal.list?_ne_empty {header : Header π} (h : header.Legal) :
    header.list? ≠ some "" := by
  intro hlist
  exact (h "" hlist).1 rfl

mutual

/-- In a printable node all clauses can be printed again. -/
theorem Node.PrintableIn.reprintable :
    ∀ (node : Node π) (inClause joined : Bool), node.PrintableIn inClause joined →
      ∀ clauses ∈ node.blocks, ∀ clause ∈ clauses, clause.Reprintable
  | .text _, _, _, _, _, hmem => absurd hmem List.not_mem_nil
  | .output _, _, _, _, _, hmem => absurd hmem List.not_mem_nil
  | .fallthrough _, _, _, _, _, hmem => absurd hmem List.not_mem_nil
  | .switch _ clauses _, _, _, h, block, hmem => by
    obtain ⟨hclauses, hblocks⟩ := Clause.AllPrintable.reprintable clauses h.2
    rcases List.mem_cons.1 hmem with rfl | hmem
    · exact hclauses
    · exact hblocks block hmem

theorem Template.PrintableIn.reprintable :
    ∀ (nodes : List (Node π)) (inClause joined : Bool),
      Template.PrintableIn inClause joined nodes →
      ∀ clauses ∈ Template.blocks nodes, ∀ clause ∈ clauses, clause.Reprintable
  | [], _, _, _, _, hmem => absurd hmem List.not_mem_nil
  | node :: nodes, inClause, joined, h, clauses, hmem => by
    rcases List.mem_append.1 hmem with hmem | hmem
    · exact Node.PrintableIn.reprintable node inClause joined h.1 clauses hmem
    · exact Template.PrintableIn.reprintable nodes inClause node.isOutput h.2 clauses hmem

/-- Printable clauses can be printed again, and so can those within them. -/
theorem Clause.AllPrintable.reprintable :
    ∀ clauses : List (Clause π), Clause.AllPrintable clauses →
      (∀ clause ∈ clauses, clause.Reprintable) ∧
        ∀ block ∈ Clause.blocks clauses, ∀ clause ∈ block, clause.Reprintable
  | [], _ => ⟨nofun, nofun⟩
  | ⟨header, children⟩ :: clauses, h => by
    obtain ⟨hheader, hchildren, -, -, hclauses⟩ := h
    obtain ⟨hmore, hblocks⟩ := Clause.AllPrintable.reprintable clauses hclauses
    refine ⟨?_, ?_⟩
    · intro clause hmem
      rcases List.mem_cons.1 hmem with rfl | hmem
      · exact ⟨hheader.list?_ne_empty, hchildren.keepsLines⟩
      · exact hmore clause hmem
    · intro block hmem
      rcases List.mem_append.1 hmem with hmem | hmem
      · exact Template.PrintableIn.reprintable children true false hchildren block hmem
      · exact hblocks block hmem

end

theorem Template.Printable.reprintable {t : Template π} (h : t.Printable) : t.Reprintable :=
  ⟨Template.PrintableIn.keepsLines h, Template.PrintableIn.reprintable t false false h⟩

/-! ## Where text stands in a source -/

theorem ReadsBody.not_looksLikeKeyword {nodes : List (Node (List Char))}
    (h : ReadsBody o k true cs (.text content :: nodes) rest) :
    ¬LooksLikeKeyword (k != 0) content.value := by
  cases h with
  | node _ hmore hnode _ => exact hnode.not_looksLikeKeyword hmore

/-- Text ends in front of the next text only where its line does. -/
theorem ReadsBody.not_looksLikeKeyword_of_stops {nodes : List (Node (List Char))}
    (h : ReadsBody o k false cs (.text content :: nodes) rest)
    (hstop : Stops (fun c => !endsText c) cs) : ¬LooksLikeKeyword (k != 0) content.value := by
  cases h with
  | @node _ _ gap _ _ _ _ _ hgap hmore hnode _ =>
    have hline : gap.contains '\n' = true := by
      cases gap with
      | nil =>
        cases hnode with
        | text hcontent _ =>
          obtain @⟨run, rest, hne, -, hrun, -⟩ := hcontent
          cases run with
          | nil => exact absurd rfl hne
          | cons c run => exact absurd ((isRun_cons.1 hrun).1.symm.trans (stops_cons.1 hstop)) nofun
      | cons c gap =>
        have hwhite := (isRun_cons.1 hgap).1
        have hends : endsText c = true := by simpa using stops_cons.1 hstop
        rcases endsText_iff.1 hends with rfl | rfl | rfl
        · exact absurd hwhite (by decide)
        · exact absurd hwhite (by decide)
        · rfl
    rw [hline, Bool.or_true] at hmore hnode
    exact hnode.not_looksLikeKeyword hmore

/-! ## Reprintable derivations are printable -/

theorem ReadsClauseHeader.header_legal {header : Header (List Char)}
    (h : ReadsClauseHeader cs header rest) (hlist : header.list? ≠ some "") : header.Legal := by
  cases header with
  | default keyword => exact nofun
  | case piece =>
    rintro _ ⟨rfl⟩
    exact ⟨fun hempty => hlist (congrArg some hempty), h.legal⟩

theorem mem_dropLast_cons {node other : Node π} {nodes : List (Node π)}
    (h : other ∈ nodes.dropLast) : other ∈ (node :: nodes).dropLast := by
  cases nodes with
  | nil => cases h
  | cons next nodes =>
    rw [List.dropLast_cons_cons]
    exact List.mem_cons_of_mem _ h

mutual

/-- A node that is read is printable, if its text does not look like a keyword where it is printed
and the clauses in it can be printed again. -/
theorem ReadsNode.printableIn (hplacement : o.placement = true) :
    ∀ {k lineStart cs node rest}, ReadsNode o k lineStart cs node rest → ∀ joined : Bool,
      (∀ content, node = .text content → joined = false →
        ¬LooksLikeKeyword (k != 0) content.value) →
      (∀ clauses ∈ node.blocks, ∀ clause ∈ clauses, clause.Reprintable) →
      node.PrintableIn (k != 0) joined ∧ node.Spelled
  | _, _, _, _, _, .text hcontent _, _, hhead, _ => ⟨⟨hcontent.legal, hhead _ rfl⟩, trivial⟩
  | _, _, _, _, _, .output hexpression, _, _, _ => ⟨hexpression.legal, trivial⟩
  | _, _, _, _, _, .fallthrough _ hk hkeyword, _, _, _ => ⟨bne_iff_ne.2 hk, hkeyword.value_eq⟩
  | _, _, _, _, _, .switch _ hheader _ hclauses hfinal, _, _, hblocks => by
    have hfinal' := Options.enforced_eq_none_iff.1 hfinal hplacement
    obtain ⟨hp, hs⟩ := hclauses.allPrintable hplacement hfinal' (hblocks _ List.mem_cons_self)
      fun block hmem => hblocks block (List.mem_cons_of_mem _ hmem)
    exact ⟨⟨hheader.legal, hp⟩, hs⟩

/-- Nodes that have been read are printable when they are reprintable, in a clause or outside of all
clauses. -/
theorem ReadsBody.printableIn (hplacement : o.placement = true) :
    ∀ {k lineStart cs nodes rest}, ReadsBody o k lineStart cs nodes rest → ∀ joined : Bool,
      (∀ content more, nodes = .text content :: more → joined = false →
        ¬LooksLikeKeyword (k != 0) content.value) →
      Template.KeepsLines (k != 0) nodes → (∀ keyword, .fallthrough keyword ∉ nodes.dropLast) →
      (∀ clauses ∈ Template.blocks nodes, ∀ clause ∈ clauses, clause.Reprintable) →
      Template.PrintableIn (k != 0) joined nodes ∧ Template.Spelled nodes
  | _, _, _, _, _, .done _ _, _, _, _, _, _ => ⟨trivial, trivial⟩
  | k, _, _, _, _, @ReadsBody.node _ _ _ _ _ node _ nodes _ _ _ hnode hnodes, joined, hhead, hlines,
      hplace, hblocks => by
    obtain ⟨hnodeP, hnodeS⟩ := hnode.printableIn hplacement joined
      (fun content htext => hhead content nodes (htext ▸ rfl))
      fun clauses hmem => hblocks clauses (List.mem_append_left _ hmem)
    -- Text begins a line behind text, and nothing stands behind a `fallthrough`; behind an expression
    -- it may be anything, and behind a switch it is `hlines` that keeps it from being a keyword.
    have hnext : ∀ content more, nodes = .text content :: more → node.isOutput = false →
        ¬LooksLikeKeyword (k != 0) content.value := by
      rintro content more rfl houtput
      cases hnode with
      | text hcontent _ =>
        obtain @⟨run, rest, -, -, -, hstop⟩ := hcontent
        exact hnodes.not_looksLikeKeyword_of_stops hstop
      | output _ => cases houtput
      | fallthrough _ _ _ => exact absurd List.mem_cons_self (hplace _)
      | switch _ _ _ _ _ => exact hlines _ _ _ content (List.prefix_append _ more).isInfix
    obtain ⟨hp, hs⟩ := hnodes.printableIn hplacement node.isOutput hnext hlines.tail
      (fun keyword hmem => hplace keyword (mem_dropLast_cons hmem))
      fun clauses hmem => hblocks clauses (List.mem_append_right _ hmem)
    exact ⟨⟨hnodeP, hp⟩, hnodeS, hs⟩

/-- Clauses that have been read are printable when they and the blocks inside of them are
reprintable. -/
theorem ReadsClauses.allPrintable (hplacement : o.placement = true) :
    ∀ {k cs clauses rest}, ReadsClauses o k cs clauses rest → finalFallthrough? clauses = none →
      (∀ clause ∈ clauses, clause.Reprintable) →
      (∀ block ∈ Clause.blocks clauses, ∀ clause ∈ block, clause.Reprintable) →
      Clause.AllPrintable clauses ∧ Clause.AllSpelled clauses
  | _, _, _, _, .done _, _, _, _ => ⟨trivial, trivial⟩
  | k, _, _, _, @ReadsClauses.clause _ _ _ _ header _ children _ clauses _ _ hheader hbody hearly
      hclauses, hfinal, hall, hblocks => by
    have hearly' := Options.enforced_eq_none_iff.1 hearly hplacement
    have hplace := earlyFallthrough?_eq_none_iff.1 hearly'
    obtain ⟨hlist, hlines⟩ := hall _ List.mem_cons_self
    obtain ⟨hp, hs⟩ := hbody.printableIn hplacement false
      (fun content more hcons _ => (hcons ▸ hbody).not_looksLikeKeyword) hlines hplace
      fun block hmem => hblocks block (List.mem_append_left _ hmem)
    obtain ⟨hcp, hcs⟩ := hclauses.allPrintable hplacement (finalFallthrough?_of_cons hfinal)
      (fun c hmem => hall c (List.mem_cons_of_mem _ hmem))
      fun block hmem => hblocks block (List.mem_append_right _ hmem)
    refine ⟨⟨hheader.header_legal hlist, hp, hplace, ?_, hcp⟩, hs, hcs⟩
    rintro rfl
    exact not_mem_of_finalFallthrough? hfinal hearly'

end

/-- What a whole source holds is printable when it is reprintable. -/
theorem ReadsBody.printable {nodes : List (Node (List Char))} (hplacement : o.placement = true)
    (h : ReadsBody o 0 true cs nodes rest) (hr : Template.Reprintable nodes) :
    Template.Printable nodes ∧ Template.Spelled nodes := by
  refine h.printableIn hplacement false ?_ hr.1 ?_ hr.2
  · rintro content more rfl -
    exact h.not_looksLikeKeyword
  · intro keyword hmem
    exact absurd rfl (h.depth_ne_zero (List.dropLast_subset nodes hmem))

/-- A template that was parsed is read back from its canonical source, with the same canonical
source again, exactly when it is reprintable. -/
theorem parse_print_stable_iff (source : String) (t : Template Position)
    (h : parse source = .ok t) :
    (∃ u, parse t.print = .ok u ∧ u.shape = t.shape ∧ u.print = t.print) ↔ t.Reprintable := by
  obtain ⟨nodes, hbody, rfl⟩ := parse_eq_ok_iff.1 h
  constructor
  · rintro ⟨u, hparse, hshape, -⟩
    obtain ⟨hp, -⟩ := Template.exists_parse_print_iff.1 ⟨u, hparse, hshape⟩
    exact hp.reprintable
  · intro hr
    obtain ⟨hp, hs⟩ := hbody.printable rfl hr.of_map
    obtain ⟨u, hparse, hshape⟩ := Template.exists_parse_print_iff.2 ⟨hp, hs⟩
    rw [← Template.shape_map (Source.ofString source).placeBefore] at hshape
    rw [← Template.print_eq_of_shape_eq (Template.shape_map _ nodes)] at hparse
    exact ⟨u, hparse, hshape, Template.print_eq_of_shape_eq hshape⟩

/-- Text behind a block becomes a statement that is never closed. -/
theorem parse_print_stable_iff_statement :
    ∃ t, parse "switch x \x7b\n\x7d switch y\n" = .ok t ∧
      t.print = "switch x \x7b\n\x7d\nswitch y\n" ∧
      ¬∃ u, parse t.print = .ok u ∧ u.shape = t.shape ∧ u.print = t.print := by
  have hparse : parse "switch x \x7b\n\x7d switch y\n" = .ok [
      .switch ⟨"x", ⟨⟨7, 1, 8⟩, ⟨8, 1, 9⟩⟩⟩ [] ⟨⟨0, 1, 1⟩, ⟨12, 2, 2⟩⟩,
      .text ⟨"switch y", ⟨⟨13, 2, 3⟩, ⟨21, 2, 11⟩⟩⟩] := by
    decide +kernel
  refine ⟨_, hparse, by decide +kernel, ?_⟩
  rw [parse_print_stable_iff _ _ hparse]
  rintro ⟨hlines, -⟩
  exact hlines _ _ _ _ List.infix_rfl (by decide +kernel)

end SwitchMarkup

import SwitchMarkup.Proofs.Grammar.Extension
import SwitchMarkup.Proofs.Grammar.Lines
import SwitchMarkup.Proofs.Grammar.Run
import SwitchMarkup.Proofs.Template.Placement
import SwitchMarkup.Template.Equality

/-!
# Blocks put together from sources

A source that holds a template can be made the body of a clause: put behind a header, it gives just
the nodes that it gives alone, as long as none of its text looks like a further header. A switch
can be put together from such clauses line by line, and the parse of these lines is the switch.
-/

namespace SwitchMarkup

open Items

/-- A clause to be put into a block: its header, the source of its body with what that holds, and
whether a `fallthrough` goes behind the body. -/
structure ClauseSource where
  header : Header Unit
  body : String
  nodes : Template Position
  fallsThrough : Bool
  legal : header.Legal
  parses : parse body = .ok nodes
  /-- No text of the body looks like the header of a clause. -/
  separate : ∀ content, .text content ∈ nodes →
    ¬Keyword.case <+: content.value.toList ∧ ¬Keyword.default <+: content.value.toList

namespace ClauseSource

/-- The lines of the clause. -/
def lines (source : ClauseSource) : String :=
  (match source.header with
    | .case list => "case " ++ list.value ++ ":\n"
    | .default _ => "default:\n") ++
  source.body ++ "\n" ++ (if source.fallsThrough then "fallthrough\n" else "")

/-- The nodes that end the clause behind those of its body. -/
def closing (source : ClauseSource) : List (Node Unit) :=
  if source.fallsThrough then [.fallthrough ⟨"fallthrough", ⟨(), ()⟩⟩] else []

/-- The clause that the lines hold. -/
def clause (source : ClauseSource) : Clause Unit :=
  ⟨source.header, Template.shape source.nodes ++ source.closing⟩

end ClauseSource

/-- The lines of the clauses of a switch, and its closing brace. -/
def clauseLines : List ClauseSource → String
  | [] => "\x7d"
  | source :: sources => source.lines ++ clauseLines sources

/-- The source of a switch with a tag and clauses. -/
def blockSource (tag : String) (sources : List ClauseSource) : String :=
  "switch " ++ tag ++ " \x7b\n" ++ clauseLines sources

variable {o : Options} {depth : Nat} {rest : List Char} {source : ClauseSource}
  {sources : List ClauseSource}

/-! ## The lines as texts -/

theorem ClauseSource.toList_lines (source : ClauseSource) (rest : List Char) :
    source.lines.toList ++ rest = source.header.line ++ (source.body.toList ++
      '\n' :: (if source.fallsThrough then Keyword.fallthrough ++ '\n' :: rest else rest)) := by
  have hcase : "case ".toList = Keyword.spaced Keyword.case := by decide
  have hcolon : ":\n".toList = [':', '\n'] := by decide
  have hdefault : "default:\n".toList = Keyword.default ++ [':', '\n'] := by decide
  have hfallthrough : "fallthrough\n".toList = Keyword.fallthrough ++ ['\n'] := by decide
  have hheader : (match source.header with
      | .case list => "case " ++ list.value ++ ":\n"
      | .default _ => "default:\n").toList = source.header.line := by
    cases source.header with
    | case list =>
      show ("case " ++ list.value ++ ":\n").toList = _
      rw [String.toList_append, String.toList_append, hcase, hcolon, List.append_assoc, Header.line]
    | default keyword => exact hdefault
  rw [lines, String.toList_append, String.toList_append, String.toList_append, hheader,
    List.append_assoc, List.append_assoc, List.append_assoc]
  refine congrArg (fun cs => source.header.line ++ (source.body.toList ++ cs)) ?_
  split
  · rw [hfallthrough, List.append_assoc]
    rfl
  · rfl

theorem toList_blockSource (tag : String) (sources : List ClauseSource) :
    (blockSource tag sources).toList = Keyword.spaced Keyword.switch ++
      (tag.toList ++ ' ' :: '\x7b' :: '\n' :: (clauseLines sources).toList) := by
  have hswitch : "switch ".toList = Keyword.spaced Keyword.switch := by decide
  have hopen : " \x7b\n".toList = [' ', '\x7b', '\n'] := by decide
  rw [blockSource, String.toList_append, String.toList_append, String.toList_append, hswitch, hopen,
    List.append_assoc, List.append_assoc]
  rfl

/-- Behind a body stands the next header or the closing brace. -/
theorem endsBody_clauseLines (depth : Nat) (sources : List ClauseSource) :
    EndsBody (depth + 1) true (clauseLines sources).toList := by
  rw [endsBody_succ_iff]
  cases sources with
  | nil => exact .inl (List.prefix_refl _)
  | cons source sources =>
    rw [clauseLines, String.toList_append, ClauseSource.toList_lines]
    exact .inr ⟨rfl, Header.opensClause_line _ _⟩

/-! ## The derivation -/

/-- What is put behind a body is read as the end of the clause. -/
theorem readsBody_closing (source : ClauseSource) (hrest : EndsBody (depth + 1) true rest) :
    ∃ nodes, ReadsBody o (depth + 1) true
        (if source.fallsThrough then Keyword.fallthrough ++ '\n' :: rest else rest) nodes rest ∧
      Template.shape nodes = source.closing := by
  have hend : ReadsBody o (depth + 1) true rest [] rest :=
    (readsBody_iff hrest.stops).2 (.inl ⟨hrest, rfl, rfl⟩)
  rw [ClauseSource.closing]
  split
  next =>
    obtain ⟨keyword, hkeyword, hvalue⟩ :=
      readsBody_fallthroughLine (Nat.succ_ne_zero depth) hend
    refine ⟨[.fallthrough keyword], hkeyword, ?_⟩
    rw [Template.shape, Template.map_cons, Template.map_nil, Node.map, Fragment.map, hvalue]
  next => exact ⟨[], hend, rfl⟩

/-- The lines behind the header of a clause are read as its content. -/
theorem readsBody_lines (source : ClauseSource) (hrest : EndsBody (depth + 1) true rest) :
    ∃ children, ReadsBody {} (depth + 1) true
        ('\n' :: (source.body.toList ++
          '\n' :: (if source.fallsThrough then Keyword.fallthrough ++ '\n' :: rest else rest)))
        children rest ∧
      Template.shape children = source.clause.children := by
  obtain ⟨nodes, hnodes, hplaces⟩ := parse_eq_ok_iff.1 source.parses
  obtain ⟨more, hmore, hshape⟩ := readsBody_closing (o := {}) source hrest
  have hseparate : ∀ content, .text content ∈ nodes → ¬Keyword.case <+: content.value.toList ∧
      ¬Keyword.default <+: content.value.toList := by
    intro content hmem
    have hmem' := Template.mem_map_of_mem (Source.ofString source.body).placeBefore hmem
    rw [← hplaces] at hmem'
    exact source.separate _ hmem'
  refine ⟨_, readsBody_newline_iff.2
    (ReadsBody.append_body (.inr rfl) hmore hnodes fun _ => hseparate), ?_⟩
  rw [Template.shape_append, Template.shape_map, hshape, ClauseSource.clause, hplaces,
    Template.shape_map]

/-! ## Placement -/

theorem ClauseSource.not_mem_nodes (source : ClauseSource) (keyword : Fragment Position) :
    .fallthrough keyword ∉ source.nodes := by
  obtain ⟨nodes, hnodes, hplaces⟩ := parse_eq_ok_iff.1 source.parses
  rw [hplaces]
  intro hmem
  obtain ⟨keyword', hmem', -⟩ := Template.exists_of_fallthrough_mem_map hmem
  exact hnodes.depth_ne_zero hmem' rfl

theorem ClauseSource.not_mem_shape (source : ClauseSource) (keyword : Fragment Unit) :
    .fallthrough keyword ∉ Template.shape source.nodes := by
  intro hmem
  obtain ⟨keyword', hmem', -⟩ := Template.exists_of_fallthrough_mem_map hmem
  exact source.not_mem_nodes keyword' hmem'

theorem ClauseSource.earlyFallthrough?_clause (source : ClauseSource) :
    earlyFallthrough? source.clause.children = none := by
  rw [earlyFallthrough?_eq_none_iff]
  intro keyword hmem
  refine source.not_mem_shape keyword ?_
  rw [clause, closing] at hmem
  split at hmem
  · rw [List.dropLast_concat] at hmem
    exact hmem
  · rw [List.append_nil] at hmem
    exact List.dropLast_subset _ hmem

theorem finalFallthrough?_map_clause
    (hlast : ∀ source ∈ sources.getLast?, source.fallsThrough = false) :
    finalFallthrough? (sources.map ClauseSource.clause) = none := by
  rw [finalFallthrough?_eq_none_iff, List.getLast?_map]
  intro clause hclause keyword hmem
  obtain ⟨source, hsource, rfl⟩ := Option.map_eq_some_iff.1 hclause
  refine source.not_mem_shape keyword (List.mem_of_getLast? ?_)
  rw [ClauseSource.clause, ClauseSource.closing, hlast source hsource] at hmem
  simpa using hmem

/-! ## The derivation of the block -/

/-- The lines of clauses are read as the clauses. -/
theorem readsClauses_clauseLines (depth : Nat) (sources : List ClauseSource) :
    ∃ clauses, ReadsClauses {} depth (clauseLines sources).toList clauses [] ∧
      Clause.mapAll (fun _ => ()) clauses = sources.map ClauseSource.clause := by
  induction sources with
  | nil => exact ⟨[], .done isRun_nil, rfl⟩
  | cons source sources ih =>
    obtain ⟨clauses, hclauses, hshapes⟩ := ih
    obtain ⟨children, hbody, hshape⟩ :=
      readsBody_lines source (endsBody_clauseLines depth sources)
    obtain ⟨header, hheader, hvalue⟩ := readsClauseHeader_line source.legal
      (source.body.toList ++ '\n' :: (if source.fallsThrough then
        Keyword.fallthrough ++ '\n' :: (clauseLines sources).toList
        else (clauseLines sources).toList))
    have hearly : earlyFallthrough? children = none := by
      have hclause := source.earlyFallthrough?_clause
      rw [← hshape, Template.shape, earlyFallthrough?_map, Option.map_eq_none_iff] at hclause
      exact hclause
    refine ⟨⟨header, children⟩ :: clauses, ?_, ?_⟩
    · rw [clauseLines, String.toList_append, ClauseSource.toList_lines]
      exact (readsClauses_iff (Header.opensClause_line _ _).stops).2 (.inr ⟨header, _, children, _,
        clauses, hheader, hbody, Options.enforced_eq_none_iff.2 fun _ => hearly, hclauses, rfl⟩)
    · rw [Clause.mapAll_cons, Clause.map, hvalue, Header.map_unit, ← Template.shape, hshape, hshapes]
      rfl

/-- A switch put together from a tag and clauses holds just these: its source is read as one node,
with the tag and, in order, each header with the nodes of its body and a `fallthrough` behind them
where one was put. -/
theorem parse_blockSource (tag : String) (sources : List ClauseSource) (htag : Legal .tag tag)
    (hlast : ∀ source ∈ sources.getLast?, source.fallsThrough = false) :
    ∃ t, parse (blockSource tag sources) = .ok t ∧
      t.shape = [.switch ⟨tag, ⟨(), ()⟩⟩ (sources.map ClauseSource.clause) ⟨(), ()⟩] := by
  rw [exists_parse_eq_ok_iff, toList_blockSource]
  obtain ⟨clauses, hclauses, hshapes⟩ := readsClauses_clauseLines 0 sources
  obtain ⟨piece, hheader, hvalue⟩ := readsSwitchHeader_spaced htag (clauseLines sources).toList
  have hfinal : finalFallthrough? clauses = none := by
    have hshape := finalFallthrough?_map_clause hlast
    rw [← hshapes, finalFallthrough?_map, Option.map_eq_none_iff] at hshape
    exact hshape
  have hnode := ReadsNode.switch (o := {}) rfl hheader rfl hclauses
    (Options.enforced_eq_none_iff.2 fun _ => hfinal)
  refine ⟨_, (readsBody_iff hnode.stops).2 (.inr ⟨?_, _, _, [], hnode,
    .done isRun_nil (endsBody_zero_iff.2 rfl), rfl⟩), ?_⟩
  · rw [endsBody_zero_iff]
    exact hnode.ne_nil
  · rw [Template.shape, Template.map_cons, Template.map_nil, Node.map, Fragment.map, hvalue,
      hshapes]

/-- A clause with a switch in its body falls through to one with an expression. -/
theorem parse_blockSource_nested :
    ∃ sources : List ClauseSource,
      blockSource "x" sources =
        "switch x \x7b\ncase 1:\na\nswitch y \x7b\n\x7d\nfallthrough\ndefault:\n\x7bn\x7d\n\x7d" ∧
      Legal .tag "x" ∧ (∀ source ∈ sources.getLast?, source.fallsThrough = false) ∧
      ∃ t, parse (blockSource "x" sources) = .ok t ∧
        t.shape = [.switch ⟨"x", ⟨(), ()⟩⟩ (sources.map ClauseSource.clause) ⟨(), ()⟩] := by
  have htag : Legal .tag "x" := by decide +kernel
  refine ⟨[
    { header := .case ⟨"1", ⟨(), ()⟩⟩
      body := "a\nswitch y \x7b\n\x7d"
      nodes := [
        .text ⟨"a", ⟨⟨0, 1, 1⟩, ⟨1, 1, 2⟩⟩⟩,
        .switch ⟨"y", ⟨⟨9, 2, 8⟩, ⟨10, 2, 9⟩⟩⟩ [] ⟨⟨2, 2, 1⟩, ⟨14, 3, 2⟩⟩]
      fallsThrough := true
      legal := ?_
      parses := by decide +kernel
      separate := ?_ },
    { header := .default ⟨(), ()⟩
      body := "\x7bn\x7d"
      nodes := [.output ⟨"n", ⟨⟨1, 1, 2⟩, ⟨2, 1, 3⟩⟩⟩]
      fallsThrough := false
      legal := nofun
      parses := by decide +kernel
      separate := ?_ }], ?_, htag, ?_, parse_blockSource _ _ htag ?_⟩
  · rintro list ⟨rfl⟩
    exact ⟨by decide, by decide +kernel⟩
  · intro content hmem
    obtain rfl : content = ⟨"a", ⟨⟨0, 1, 1⟩, ⟨1, 1, 2⟩⟩⟩ := by simpa using hmem
    decide
  · intro content hmem
    simp at hmem
  · decide +kernel
  · rintro source ⟨rfl⟩
    rfl
  · rintro source ⟨rfl⟩
    rfl

end SwitchMarkup

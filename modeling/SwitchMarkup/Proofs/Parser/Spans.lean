import SwitchMarkup.Proofs.Grammar.Run
import SwitchMarkup.Proofs.Grammar.Suffix
import SwitchMarkup.Proofs.Template.Spans
import SwitchMarkup.Template.Equality

/-!
# Where the stretches of a parsed template lie

Every stretch of a parsed template holds just the text that the template has for it, and the
stretches follow one another as they are read, those inside of a block between the two ends of the
block. In a derivation the places are texts, one a suffix of the other, and the stretches of each
construct tile the text from its beginning to the text behind it. Main statement: `parse_located`.
-/

namespace SwitchMarkup

variable {π ρ : Type}

/-! ## What a stretch holds -/

/-- The text that stands at the stretch of a header. -/
def Header.text : Header π → List Char
  | .case list => list.value.toList
  | .default _ => Keyword.default

/-- The stretches of a node hold its texts, in the sense of `holds`; that of a block holds a text
from `switch` to a closing brace. -/
def Node.Exact (holds : Span π → List Char → Prop) : Node π → Prop
  | .text content => holds content.span content.value.toList
  | .output expression => holds expression.span expression.value.toList
  | .fallthrough keyword => holds keyword.span keyword.value.toList
  | .switch tag clauses block =>
    holds tag.span tag.value.toList ∧
      (∀ clause ∈ clauses, holds clause.header.span clause.header.text) ∧
      ∃ inner, holds block (Keyword.spaced Keyword.switch ++ (inner ++ ['\x7d']))

/-- The ends of a stretch are positions of the source, and the bytes between them are a text. -/
structure Source.HoldsAt (source : Source) (s : Span Position) (text : List Char) : Prop where
  start_eq : s.start = source.positionAt s.start.index
  stop_eq : s.stop = source.positionAt s.stop.index
  start_le_stop : s.start.index ≤ s.stop.index
  bytes : ∃ before after, source.chars = before ++ (text ++ after) ∧
    s.start.index = byteLength before ∧ s.stop.index = byteLength (before ++ text)

/-- One stretch ends where the other begins or in front of that. -/
def Span.Before (s t : Span Position) : Prop := s.stop.index ≤ t.start.index

/-- A stretch lies between the ends of another. -/
def Span.Within (s t : Span Position) : Prop :=
  t.start.index ≤ s.start.index ∧ s.stop.index ≤ t.stop.index

/-- All stretches of a template are where they belong in its source: each holds its text, they
follow one another in the order in which they are read, with blocks as single stretches on every
level, and what is inside of a switch lies within its block. -/
structure Template.Located (source : Source) (t : Template Position) : Prop where
  exact : ∀ node ∈ Template.subnodes t, node.Exact source.HoldsAt
  leaves_ordered : (Template.leaves t).Pairwise Span.Before
  spans_ordered : (List.map Node.span t).Pairwise Span.Before
  parts_ordered : ∀ node ∈ Template.subnodes t, node.parts.Pairwise Span.Before
  leaves_within : ∀ node ∈ Template.subnodes t, ∀ s ∈ node.leaves, s.Within node.span
  subnodes_within : ∀ node ∈ Template.subnodes t, ∀ inner ∈ node.subnodes,
    inner.span.Within node.span

/-! ## Stretches one behind the other -/

variable {o : Options} {depth : Nat} {lineStart : Bool} {cs ds mid rest run text : List Char}
  {s : Span (List Char)} {spans more : List (Span (List Char))} {piece : Fragment (List Char)}
  {header : Header (List Char)} {node : Node (List Char)}

/-- The stretches follow one another from the text `cs` on, and `rest` stands behind the last. -/
inductive Tiles : List Char → List (Span (List Char)) → List Char → Prop where
  | nil {cs rest : List Char} (h : rest <:+ cs) : Tiles cs [] rest
  | cons {cs rest : List Char} {s : Span (List Char)} {spans : List (Span (List Char))}
      (hstart : s.start <:+ cs) (hstop : s.stop <:+ s.start) (hspans : Tiles s.stop spans rest) :
      Tiles cs (s :: spans) rest

theorem Tiles.suffix (h : Tiles cs spans rest) : rest <:+ cs := by
  induction h with
  | nil h => exact h
  | cons hstart hstop _ ih => exact (ih.trans hstop).trans hstart

theorem Tiles.behind (h : Tiles cs spans rest) (hcs : cs <:+ ds) : Tiles ds spans rest := by
  cases h with
  | nil h => exact .nil (h.trans hcs)
  | cons hstart hstop hspans => exact .cons (hstart.trans hcs) hstop hspans

theorem Tiles.append (h : Tiles cs spans mid) (hmore : Tiles mid more rest) :
    Tiles cs (spans ++ more) rest := by
  induction h with
  | nil h => exact hmore.behind h
  | cons hstart hstop _ ih => exact .cons hstart hstop (ih hmore)

theorem Tiles.single (hstart : s.start <:+ cs) (hstop : s.stop <:+ s.start)
    (hrest : rest <:+ s.stop) : Tiles cs [s] rest :=
  .cons hstart hstop (.nil hrest)

/-- Every stretch lies between the two texts. -/
theorem Tiles.mem (h : Tiles cs spans rest) (hs : s ∈ spans) :
    s.start <:+ cs ∧ rest <:+ s.stop := by
  induction h with
  | nil => cases hs
  | cons hstart hstop hspans ih =>
    rcases List.mem_cons.1 hs with rfl | hs
    · exact ⟨hstart, hspans.suffix⟩
    · obtain ⟨hbegin, hend⟩ := ih hs
      exact ⟨(hbegin.trans hstop).trans hstart, hend⟩

theorem Tiles.stop_suffix (h : Tiles cs spans rest) (hs : s ∈ spans) : s.stop <:+ s.start := by
  induction h with
  | nil => cases hs
  | cons _ hstop _ ih =>
    rcases List.mem_cons.1 hs with rfl | hs
    · exact hstop
    · exact ih hs

/-- Of stretches that follow one another each begins where the ones before it have ended. -/
theorem Tiles.pairwise (h : Tiles cs spans rest) :
    spans.Pairwise fun s t => t.start <:+ s.stop := by
  induction h with
  | nil => exact .nil
  | cons _ _ hspans ih => exact .cons (fun t ht => (hspans.mem ht).1) ih

/-! ## Constructs -/

/-- The text of a trimmed piece stands at its stretch. -/
theorem Fragment.start_ofRun (run rest : List Char) :
    (Fragment.ofRun run rest).span.start =
      (Fragment.ofRun run rest).value.toList ++ (Fragment.ofRun run rest).span.stop := by
  obtain ⟨pad, -, -, htrim⟩ := exists_trim_append run
  rw [Fragment.value_ofRun, String.toList_ofList, Fragment.ofRun, htrim, List.drop_left,
    List.append_assoc]

theorem tiles_ofRun (run rest : List Char) :
    Tiles (run ++ rest) [(Fragment.ofRun run rest).span] rest := by
  refine .single ?_ ?_ (List.suffix_append ..)
  · rw [← takeWhile_append_trimStart run, List.append_assoc, takeWhile_append_trimStart]
    exact List.suffix_append ..
  · rw [Fragment.start_ofRun]
    exact List.suffix_append ..

theorem ReadsText.tiles (h : ReadsText cs piece rest) : Tiles cs [piece.span] rest := by
  obtain @⟨run, rest, -, -, -, -⟩ := h
  exact tiles_ofRun run rest

theorem ReadsOutput.tiles (h : ReadsOutput cs piece rest) : Tiles cs [piece.span] rest := by
  obtain @⟨run, rest, -, -⟩ := h
  have hclose : Tiles ('\x7d' :: rest) [] rest := .nil (List.suffix_cons ..)
  exact ((tiles_ofRun run ('\x7d' :: rest)).behind (List.suffix_cons ..)).append hclose

theorem ReadsFallthrough.tiles (h : ReadsFallthrough cs piece rest) :
    Tiles cs [piece.span] rest := by
  obtain @⟨pad, rest, -, -⟩ := h
  exact (tiles_ofRun Keyword.fallthrough (pad ++ rest)).append (.nil (List.suffix_append ..))

theorem ReadsSwitchHeader.tiles (h : ReadsSwitchHeader cs piece rest) :
    Tiles cs [piece.span] rest := by
  obtain @⟨gap, run, pad, lineEnd, rest, -, -, -, -, -⟩ := h
  have hgap : run ++ '\x7b' :: (pad ++ (lineEnd ++ rest)) <:+ Keyword.spaced Keyword.switch ++
      (gap ++ (run ++ '\x7b' :: (pad ++ (lineEnd ++ rest)))) :=
    (List.suffix_append ..).trans (List.suffix_append ..)
  have hopen : rest <:+ '\x7b' :: (pad ++ (lineEnd ++ rest)) :=
    ((List.suffix_append ..).trans (List.suffix_append ..)).trans (List.suffix_cons ..)
  exact ((tiles_ofRun run _).behind hgap).append (.nil hopen)

theorem ReadsClauseHeader.tiles (h : ReadsClauseHeader cs header rest) :
    Tiles cs [header.span] rest := by
  cases h with
  | @case gap run rest =>
    have hgap : run ++ ':' :: rest <:+
        Keyword.spaced Keyword.case ++ (gap ++ (run ++ ':' :: rest)) :=
      (List.suffix_append ..).trans (List.suffix_append ..)
    exact ((tiles_ofRun run _).behind hgap).append (.nil (List.suffix_cons ..))
  | @default pad rest =>
    exact .single List.suffix_rfl (List.suffix_append ..)
      ((List.suffix_cons ..).trans (List.suffix_append ..))

/-- A stretch of a derivation spells a text of the source. -/
def Span.Spells (source : List Char) (s : Span (List Char)) (text : List Char) : Prop :=
  s.start <:+ source ∧ s.start = text ++ s.stop

theorem ReadsText.spells (h : ReadsText cs piece rest) :
    piece.span.Spells cs piece.value.toList := by
  refine ⟨(h.tiles.mem List.mem_cons_self).1, ?_⟩
  cases h
  exact Fragment.start_ofRun ..

theorem ReadsOutput.spells (h : ReadsOutput cs piece rest) :
    piece.span.Spells cs piece.value.toList := by
  refine ⟨(h.tiles.mem List.mem_cons_self).1, ?_⟩
  cases h
  exact Fragment.start_ofRun ..

theorem ReadsFallthrough.spells (h : ReadsFallthrough cs piece rest) :
    piece.span.Spells cs piece.value.toList := by
  refine ⟨(h.tiles.mem List.mem_cons_self).1, ?_⟩
  cases h
  exact Fragment.start_ofRun ..

theorem ReadsSwitchHeader.spells (h : ReadsSwitchHeader cs piece rest) :
    piece.span.Spells cs piece.value.toList := by
  refine ⟨(h.tiles.mem List.mem_cons_self).1, ?_⟩
  cases h
  exact Fragment.start_ofRun ..

/-- The stretch of a header spells its list, or `default`. -/
theorem ReadsClauseHeader.spells (h : ReadsClauseHeader cs header rest) :
    header.span.Spells cs header.text := by
  refine ⟨(h.tiles.mem List.mem_cons_self).1, ?_⟩
  cases h with
  | case => exact Fragment.start_ofRun ..
  | default => rfl

theorem Span.Spells.of_suffix (h : s.Spells cs text) (hcs : cs <:+ ds) : s.Spells ds text :=
  ⟨h.1.trans hcs, h.2⟩

/-! ## Nodes, bodies and clauses -/

mutual

/-- The leaves of a node follow one another. -/
theorem ReadsNode.tiles_leaves :
    ∀ {depth lineStart cs node rest}, ReadsNode o depth lineStart cs node rest →
      Tiles cs node.leaves rest
  | _, _, _, _, _, .text hcontent _ => hcontent.tiles
  | _, _, _, _, _, .output hexpression => hexpression.tiles
  | _, _, _, _, _, .fallthrough _ _ hkeyword => hkeyword.tiles
  | _, _, _, _, _, .switch _ hheader _ hclauses _ => hheader.tiles.append hclauses.tiles_leaves

/-- The stretches of a body tile its text. -/
theorem ReadsBody.tiles_leaves :
    ∀ {depth lineStart cs nodes rest}, ReadsBody o depth lineStart cs nodes rest →
      Tiles cs (Template.leaves nodes) rest
  | _, _, _, _, _, .done _ _ => .nil (List.suffix_append ..)
  | _, _, _, _, _, .node _ _ hnode hnodes =>
    (hnode.tiles_leaves.append hnodes.tiles_leaves).behind (List.suffix_append ..)

/-- The leaves of the clauses of a block follow one another. -/
theorem ReadsClauses.tiles_leaves :
    ∀ {depth cs clauses rest}, ReadsClauses o depth cs clauses rest →
      Tiles cs (Clause.leaves clauses) rest
  | _, _, _, _, .done _ => .nil ((List.suffix_cons ..).trans (List.suffix_append ..))
  | _, _, _, _, .clause _ hheader hbody _ hclauses =>
    (hheader.tiles.append (hbody.tiles_leaves.append hclauses.tiles_leaves)).behind
      (List.suffix_append ..)

end

/-- A node lies between where it is read and what is left. -/
theorem ReadsNode.tiles_span (h : ReadsNode o depth lineStart cs node rest) :
    Tiles cs [node.span] rest := by
  cases h with
  | text hcontent _ => exact hcontent.tiles
  | output hexpression => exact hexpression.tiles
  | fallthrough _ _ hkeyword => exact hkeyword.tiles
  | switch _ hheader _ hclauses _ =>
    exact .single List.suffix_rfl (hclauses.suffix.trans hheader.suffix) List.suffix_rfl

/-- The stretches of a body, with each block as one, follow one another. -/
theorem ReadsBody.tiles_spans :
    ∀ {lineStart cs nodes rest}, ReadsBody o depth lineStart cs nodes rest →
      Tiles cs (nodes.map Node.span) rest
  | _, _, _, _, .done _ _ => .nil (List.suffix_append ..)
  | _, _, _, _, .node _ _ hnode hnodes =>
    (hnode.tiles_span.append hnodes.tiles_spans).behind (List.suffix_append ..)

/-- Headers and nodes of the clauses of a block follow one another. -/
theorem ReadsClauses.tiles_parts :
    ∀ {cs clauses rest}, ReadsClauses o depth cs clauses rest →
      Tiles cs (clauses.flatMap Clause.parts) rest
  | _, _, _, .done _ => .nil ((List.suffix_cons ..).trans (List.suffix_append ..))
  | _, _, _, .clause _ hheader hbody _ hclauses =>
    (hheader.tiles.append (hbody.tiles_spans.append hclauses.tiles_parts)).behind
      (List.suffix_append ..)

/-- The parts of a node follow one another within it. -/
theorem ReadsNode.tiles_parts (h : ReadsNode o depth lineStart cs node rest) :
    Tiles cs node.parts rest := by
  have hsuffix := h.suffix
  cases h with
  | text | output | fallthrough => exact .nil hsuffix
  | switch _ hheader _ hclauses _ => exact hheader.tiles.append hclauses.tiles_parts

/-! ## What the stretches of a node spell -/

theorem ReadsClauses.spells :
    ∀ {cs clauses rest}, ReadsClauses o depth cs clauses rest →
      ∀ clause ∈ clauses, clause.header.span.Spells cs clause.header.text
  | _, _, _, .clause _ hheader hbody _ hclauses, c, hmem => by
    rcases List.mem_cons.1 hmem with rfl | hmem
    · exact hheader.spells.of_suffix (List.suffix_append ..)
    · have hstop := hbody.suffix.trans hheader.suffix
      exact (hclauses.spells c hmem).of_suffix (hstop.trans (List.suffix_append ..))

/-- The clauses of a switch end with its closing brace. -/
theorem ReadsClauses.exists_close :
    ∀ {cs clauses rest}, ReadsClauses o depth cs clauses rest → '\x7d' :: rest <:+ cs
  | _, _, _, .done _ => List.suffix_append ..
  | _, _, _, .clause _ hheader hbody _ hclauses =>
    ((hclauses.exists_close.trans hbody.suffix).trans hheader.suffix).trans (List.suffix_append ..)

/-- The stretches of a node hold its texts. -/
theorem ReadsNode.exact (h : ReadsNode o depth lineStart cs node rest) :
    node.Exact (Span.Spells cs) := by
  cases h with
  | text hcontent _ => exact hcontent.spells
  | output hexpression => exact hexpression.spells
  | fallthrough _ _ hkeyword => exact hkeyword.spells
  | switch _ hheader _ hclauses _ =>
    refine ⟨hheader.spells, fun clause hmem => ?_, ?_⟩
    · exact (hclauses.spells clause hmem).of_suffix hheader.suffix
    · obtain ⟨inner, hinner⟩ := hclauses.exists_close
      obtain @⟨gap, run, pad, lineEnd, block, -, -, -, -, -⟩ := hheader
      refine ⟨gap ++ (run ++ '\x7b' :: (pad ++ (lineEnd ++ inner))), List.suffix_rfl, ?_⟩
      simp only [← hinner, List.append_assoc, List.cons_append, List.nil_append]

/-! ## Nodes at any depth -/

/-- The node was read at a place from `cs` on, and `rest` stands behind it. -/
def ReadBetween (o : Options) (cs rest : List Char) (node : Node (List Char)) : Prop :=
  ∃ depth lineStart ds stop, ReadsNode o depth lineStart ds node stop ∧ ds <:+ cs ∧ rest <:+ stop

theorem ReadBetween.mono {cs' rest' : List Char} (h : ReadBetween o cs rest node)
    (hcs : cs <:+ cs') (hrest : rest' <:+ rest) : ReadBetween o cs' rest' node := by
  obtain ⟨depth, lineStart, ds, stop, hnode, hds, hstop⟩ := h
  exact ⟨depth, lineStart, ds, stop, hnode, hds.trans hcs, hrest.trans hstop⟩

theorem ReadsNode.between_self (h : ReadsNode o depth lineStart cs node rest) :
    ReadBetween o cs rest node :=
  ⟨depth, lineStart, cs, rest, h, List.suffix_rfl, List.suffix_rfl⟩

mutual

/-- All nodes within a node are read within the same text. -/
theorem ReadsNode.between :
    ∀ {depth lineStart cs node rest}, ReadsNode o depth lineStart cs node rest →
      ∀ inner ∈ node.subnodes, ReadBetween o cs rest inner
  | _, _, _, _, _, h@(.text _ _), inner, hmem => by
    rw [List.mem_singleton.1 hmem]
    exact h.between_self
  | _, _, _, _, _, h@(.output _), inner, hmem => by
    rw [List.mem_singleton.1 hmem]
    exact h.between_self
  | _, _, _, _, _, h@(.fallthrough _ _ _), inner, hmem => by
    rw [List.mem_singleton.1 hmem]
    exact h.between_self
  | _, _, _, _, _, h@(.switch _ hheader _ hclauses _), inner, hmem => by
    rcases List.mem_cons.1 hmem with rfl | hmem
    · exact h.between_self
    · exact (hclauses.between inner hmem).mono hheader.suffix List.suffix_rfl

/-- Every node of a body, at any depth, was read somewhere in its text. -/
theorem ReadsBody.between :
    ∀ {depth lineStart cs nodes rest}, ReadsBody o depth lineStart cs nodes rest →
      ∀ inner ∈ Template.subnodes nodes, ReadBetween o cs rest inner
  | _, _, _, _, _, .node _ _ hnode hnodes, inner, hmem => by
    rcases List.mem_append.1 hmem with hmem | hmem
    · exact (hnode.between inner hmem).mono (List.suffix_append ..) hnodes.suffix
    · exact (hnodes.between inner hmem).mono (hnode.suffix.trans (List.suffix_append ..))
        List.suffix_rfl

theorem ReadsClauses.between :
    ∀ {depth cs clauses rest}, ReadsClauses o depth cs clauses rest →
      ∀ inner ∈ Clause.subnodes clauses, ReadBetween o cs rest inner
  | _, _, _, _, .clause _ hheader hbody _ hclauses, inner, hmem => by
    rcases List.mem_append.1 hmem with hmem | hmem
    · exact (hbody.between inner hmem).mono (hheader.suffix.trans (List.suffix_append ..))
        hclauses.suffix
    · have hstop := hbody.suffix.trans hheader.suffix
      exact (hclauses.between inner hmem).mono (hstop.trans (List.suffix_append ..)) List.suffix_rfl

end

/-! ## Positions -/

theorem Source.positionAt_index (source : Source) (offset : Nat) :
    source.positionAt (source.positionAt offset).index = source.positionAt offset := by
  have hmin : min (min offset source.length) source.length = min offset source.length := by omega
  simp only [Source.positionAt, hmin]

/-- A later place has no smaller index. -/
theorem Source.index_placeBefore_le (source : Source) (h : ds <:+ cs) :
    (source.placeBefore cs).index ≤ (source.placeBefore ds).index := by
  obtain ⟨front, rfl⟩ := h
  show min (source.length - byteLength (front ++ ds)) source.length ≤
    min (source.length - byteLength ds) source.length
  rw [byteLength_append]
  omega

/-- A stretch of a derivation that spells a text holds it at its positions. -/
theorem Span.Spells.holdsAt {source : String} (h : s.Spells source.toList text) :
    (Source.ofString source).HoldsAt (s.map (Source.ofString source).placeBefore) text := by
  obtain ⟨⟨before, hbefore⟩, hstart⟩ := h
  refine ⟨(Source.positionAt_index ..).symm, (Source.positionAt_index ..).symm, ?_, before, s.stop,
    ?_, ?_, ?_⟩
  · exact Source.index_placeBefore_le _ ⟨text, hstart.symm⟩
  · rw [← hstart]
    exact hbefore.symm
  · exact Source.index_placeBefore before s.start hbefore
  · refine Source.index_placeBefore (before ++ text) s.stop ?_
    rw [List.append_assoc, ← hstart, hbefore]

theorem Tiles.pairwise_before {source : Source} (h : Tiles cs spans rest) :
    (spans.map (Span.map source.placeBefore)).Pairwise Span.Before := by
  rw [List.pairwise_map]
  exact h.pairwise.imp fun hst => source.index_placeBefore_le hst

/-- What lies between two texts lies within a stretch from one to the other. -/
theorem within_of_suffix {source : Source} {t : Span (List Char)} (hstart : s.start <:+ t.start)
    (hstop : t.stop <:+ s.stop) :
    (s.map source.placeBefore).Within (t.map source.placeBefore) :=
  ⟨source.index_placeBefore_le hstart, source.index_placeBefore_le hstop⟩

/-- Stretches hold their texts in another sense if places are told otherwise. -/
theorem Node.Exact.map {holds : Span π → List Char → Prop} {holds' : Span ρ → List Char → Prop}
    {f : π → ρ} {node : Node π} (h : node.Exact holds)
    (hf : ∀ s text, holds s text → holds' (s.map f) text) : (node.map f).Exact holds' := by
  cases node with
  | text content => exact hf _ _ h
  | output expression => exact hf _ _ h
  | fallthrough keyword => exact hf _ _ h
  | switch tag clauses block =>
    obtain ⟨htag, hclauses, inner, hblock⟩ := h
    rw [Node.map, Clause.mapAll_eq_map]
    refine ⟨hf _ _ htag, ?_, inner, hf _ _ hblock⟩
    intro clause' hmem'
    obtain ⟨clause, hmem, rfl⟩ := List.mem_map.1 hmem'
    have htext : (clause.header.map f).text = clause.header.text := by
      cases clause.header <;> rfl
    rw [Clause.header_map, Header.span_map, htext]
    exact hf _ _ (hclauses clause hmem)

/-! ## Parsed templates -/

/-- What is inside of a node lies between the ends of its stretch. -/
theorem ReadsNode.within (h : ReadsNode o depth lineStart cs node rest) :
    (∀ s ∈ node.leaves, s.start <:+ node.span.start ∧ node.span.stop <:+ s.stop) ∧
      ∀ inner ∈ node.subnodes,
        inner.span.start <:+ node.span.start ∧ node.span.stop <:+ inner.span.stop := by
  have hleaves := h.tiles_leaves
  have hbetween := h.between
  cases h with
  | text | output | fallthrough =>
    refine ⟨fun s hs => ?_, fun inner hinner => ?_⟩
    · obtain rfl := List.mem_singleton.1 hs
      exact ⟨List.suffix_rfl, List.suffix_rfl⟩
    · obtain rfl := List.mem_singleton.1 hinner
      exact ⟨List.suffix_rfl, List.suffix_rfl⟩
  | switch _ _ _ _ _ =>
    refine ⟨fun s hs => hleaves.mem hs, fun inner hinner => ?_⟩
    obtain ⟨_, _, ds, stop, hread, hds, hstop⟩ := hbetween inner hinner
    obtain ⟨hbegin, hend⟩ := hread.tiles_span.mem List.mem_cons_self
    exact ⟨hbegin.trans hds, hstop.trans hend⟩

/-- In every template that a source holds, under any options, all stretches are located. -/
theorem parse_located (source : String) (o : Options) (t : Template Position)
    (h : parse source o = .ok t) : Template.Located (Source.ofString source) t := by
  obtain ⟨nodes, hbody, rfl⟩ := parse_eq_ok_iff.1 h
  -- Each node of the template is the image of one that was read somewhere in the source.
  have hnode : ∀ node' ∈ Template.subnodes
      (Template.map (Source.ofString source).placeBefore nodes), ∃ node,
        ReadBetween o source.toList [] node ∧
          node' = node.map (Source.ofString source).placeBefore := by
    intro node' hmem'
    rw [Template.subnodes_map] at hmem'
    obtain ⟨node, hmem, rfl⟩ := List.mem_map.1 hmem'
    exact ⟨node, hbody.between node hmem, rfl⟩
  refine ⟨?_, ?_, ?_, ?_, ?_, ?_⟩
  · intro node' hmem'
    obtain ⟨node, ⟨_, _, ds, _, hread, hds, -⟩, rfl⟩ := hnode node' hmem'
    exact hread.exact.map fun s text hs => (hs.of_suffix hds).holdsAt
  · rw [Template.leaves_map]
    exact hbody.tiles_leaves.pairwise_before
  · rw [Node.map_span_map]
    exact hbody.tiles_spans.pairwise_before
  · intro node' hmem'
    obtain ⟨node, ⟨_, _, _, _, hread, -, -⟩, rfl⟩ := hnode node' hmem'
    rw [Node.parts_map]
    exact hread.tiles_parts.pairwise_before
  · intro node' hmem' s' hs'
    obtain ⟨node, ⟨_, _, _, _, hread, -, -⟩, rfl⟩ := hnode node' hmem'
    rw [Node.leaves_map] at hs'
    obtain ⟨s, hs, rfl⟩ := List.mem_map.1 hs'
    obtain ⟨hstart, hstop⟩ := hread.within.1 s hs
    rw [Node.span_map]
    exact within_of_suffix hstart hstop
  · intro node' hmem' inner' hinner'
    obtain ⟨node, ⟨_, _, _, _, hread, -, -⟩, rfl⟩ := hnode node' hmem'
    rw [Node.subnodes_map] at hinner'
    obtain ⟨inner, hinner, rfl⟩ := List.mem_map.1 hinner'
    obtain ⟨hstart, hstop⟩ := hread.within.2 inner hinner
    rw [Node.span_map, Node.span_map]
    exact within_of_suffix hstart hstop

/-- Characters of several bytes, an empty tag, and a block inside of a clause without a list. -/
theorem parse_located_nested :
    ∃ t, parse ("é\n switch \x7b\n\u2003default :\n\x7b\u00a0x \x7d\n switch y \x7b\n" ++
        "case 1:\x7d\n\x7d") { maxDepth := some 2 } = .ok t ∧
      Template.Located (.ofString ("é\n switch \x7b\n\u2003default :\n\x7b\u00a0x \x7d\n switch y \x7b\n" ++
        "case 1:\x7d\n\x7d")) t := by
  have hparse : parse ("é\n switch \x7b\n\u2003default :\n\x7b\u00a0x \x7d\n switch y \x7b\n" ++
      "case 1:\x7d\n\x7d") { maxDepth := some 2 } = .ok [
        .text ⟨"é", ⟨⟨0, 1, 1⟩, ⟨2, 1, 2⟩⟩⟩,
        .switch ⟨"", ⟨⟨11, 2, 9⟩, ⟨11, 2, 9⟩⟩⟩
          [⟨.default ⟨⟨16, 3, 2⟩, ⟨23, 3, 9⟩⟩, [
            .output ⟨"x", ⟨⟨29, 4, 3⟩, ⟨30, 4, 4⟩⟩⟩,
            .switch ⟨"y", ⟨⟨41, 5, 9⟩, ⟨42, 5, 10⟩⟩⟩
              [⟨.case ⟨"1", ⟨⟨50, 6, 6⟩, ⟨51, 6, 7⟩⟩⟩, []⟩] ⟨⟨34, 5, 2⟩, ⟨53, 6, 9⟩⟩]⟩]
          ⟨⟨4, 2, 2⟩, ⟨55, 7, 2⟩⟩] := by
    decide +kernel
  exact ⟨_, hparse, parse_located _ _ _ hparse⟩

end SwitchMarkup

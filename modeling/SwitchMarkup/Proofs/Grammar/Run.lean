import SwitchMarkup.Parser.Run
import SwitchMarkup.Proofs.Grammar.Basic
import SwitchMarkup.Proofs.Grammar.Extraction

/-!
# A parse reads what the grammar derives

A parse keeps the switches that are still open in a list of frames, and a derivation nests. What
the frames demand of the text behind them is written down as `Closes`: each frame takes the rest of
its switch and hands the node to the body around it. A step changes where the parse stands but not
what is demanded, so a run ends with a template exactly when the demand of its first stage is met.
Main statement: `readSource_eq_ok_iff`.
-/

namespace SwitchMarkup

variable {o : Options} {depth total : Nat} {lineStart : Bool} {gap cs rest : List Char}
  {nodes final : List (Node Nat)} {block : Block} {close : List (Node Nat) → List Char → Prop}
  {around : List Frame} {t : Tail} {s : Step} {P Q : Prop}

/-! ## What open constructs demand -/

/-- A switch with more clauses. -/
def Block.add (block : Block) (clauses : List (Clause Nat)) : Block :=
  { block with clauses := block.clauses ++ clauses }

/-- The text goes on with the rest of a body, and from there as `close` says of all its nodes. -/
def ReadsOn (o : Options) (total depth : Nat) (lineStart : Bool) (nodes : List (Node Nat))
    (close : List (Node Nat) → List Char → Prop) (cs : List Char) : Prop :=
  ∃ more stop, ReadsBody o depth lineStart cs more stop ∧
    close (nodes ++ Template.map (placeIn total) more) stop

/-- The text goes on with the rest of a switch and the rest of the body around it. -/
def ReadsBlock (o : Options) (total depth : Nat) (block : Block)
    (close : List (Node Nat) → List Char → Prop) (cs : List Char) : Prop :=
  ∃ clauses rest, ReadsClauses o depth cs clauses rest ∧
    o.enforced (finalFallthrough? (block.clauses ++ Clause.mapAll (placeIn total) clauses)) = none ∧
    ReadsOn o total depth false
      ((block.add (Clause.mapAll (placeIn total) clauses)).close (placeIn total rest)) close rest

/-- What the frames around a body demand of its nodes and of the text behind it, for the template
to be `final` in the end. -/
def Closes (o : Options) (total : Nat) (final : List (Node Nat)) :
    List Frame → List (Node Nat) → List Char → Prop
  | [], nodes, _ => final = nodes
  | frame :: outer, nodes, cs =>
    o.enforced (earlyFallthrough? nodes) = none ∧
      ReadsBlock o total outer.length (frame.finish nodes) (Closes o total final outer) cs

/-- What a stage demands of the text from there on. -/
def Demands (o : Options) (total : Nat) (final : List (Node Nat)) : Stage → List Char → Prop
  | .body around nodes lineStart, cs =>
    ReadsOn o total around.length lineStart nodes (Closes o total final around) cs
  | .block around block, cs =>
    ReadsBlock o total around.length block (Closes o total final around) cs

theorem Block.add_nil (block : Block) : block.add [] = block := by
  rw [Block.add, List.append_nil]

theorem Block.add_add (block : Block) (clauses more : List (Clause Nat)) :
    (block.add clauses).add more = block.add (clauses ++ more) := by
  rw [Block.add, Block.add, Block.add, List.append_assoc]

/-- The text goes on with a node, and from behind it as `ReadsOn` says. -/
def ReadsNext (o : Options) (total depth : Nat) (lineStart : Bool) (nodes : List (Node Nat))
    (close : List (Node Nat) → List Char → Prop) (cs : List Char) : Prop :=
  ∃ node mid, ReadsNode o depth lineStart cs node mid ∧
    ReadsOn o total depth false (nodes ++ [node.map (placeIn total)]) close mid

/-! ## A demand and its first construct -/

/-- White space in front of the rest of a body is passed over, and a line feed in it begins a
line. -/
theorem readsOn_gap_iff (hgap : IsRun isWhiteSpace gap) :
    ReadsOn o total depth lineStart nodes close (gap ++ cs) ↔
      ReadsOn o total depth (lineStart || gap.contains '\n') nodes close cs := by
  simp only [ReadsOn, readsBody_gap_iff hgap]

/-- White space in front of the rest of a block is passed over. -/
theorem readsBlock_gap_iff (hgap : IsRun isWhiteSpace gap) :
    ReadsBlock o total depth block close (gap ++ cs) ↔
      ReadsBlock o total depth block close cs := by
  simp only [ReadsBlock, readsClauses_gap_iff hgap]

/-- Behind white space the rest of a body is at its end, or goes on with a node. -/
theorem readsOn_iff (hcs : Stops isWhiteSpace cs) :
    ReadsOn o total depth lineStart nodes close cs ↔
      (EndsBody depth lineStart cs ∧ close nodes cs) ∨
      (¬EndsBody depth lineStart cs ∧ ReadsNext o total depth lineStart nodes close cs) := by
  constructor
  · rintro ⟨more, stop, hbody, hclose⟩
    rcases (readsBody_iff hcs).1 hbody with
      ⟨hend, rfl, rfl⟩ | ⟨hmore, node, mid, more, hnode, hnodes, rfl⟩
    · rw [Template.map_nil, List.append_nil] at hclose
      exact .inl ⟨hend, hclose⟩
    · refine .inr ⟨hmore, node, mid, hnode, more, stop, hnodes, ?_⟩
      rw [Template.map_cons, List.append_cons] at hclose
      exact hclose
  · rintro (⟨hend, hclose⟩ | ⟨hmore, node, mid, hnode, more, stop, hnodes, hclose⟩)
    · refine ⟨[], cs, (readsBody_iff hcs).2 (.inl ⟨hend, rfl, rfl⟩), ?_⟩
      rw [Template.map_nil, List.append_nil]
      exact hclose
    · refine ⟨node :: more, stop,
        (readsBody_iff hcs).2 (.inr ⟨hmore, node, mid, more, hnode, hnodes, rfl⟩), ?_⟩
      rw [Template.map_cons, List.append_cons]
      exact hclose

/-- Where no clause begins, a switch can only be closed. -/
theorem readsBlock_close_iff (hcs : Stops isWhiteSpace cs) (hopens : ¬OpensClause cs) :
    ReadsBlock o total depth block close cs ↔
      o.enforced (finalFallthrough? block.clauses) = none ∧
        ∃ rest, cs = '\x7d' :: rest ∧
          ReadsOn o total depth false (block.close (placeIn total rest)) close rest := by
  constructor
  · rintro ⟨clauses, rest, hclauses, hfinal, hon⟩
    rcases (readsClauses_iff hcs).1 hclauses with
      ⟨rfl, rfl⟩ | ⟨header, mid, children, stop, more, hheader, -⟩
    · rw [Clause.mapAll_nil, List.append_nil] at hfinal
      rw [Clause.mapAll_nil, Block.add_nil] at hon
      exact ⟨hfinal, rest, rfl, hon⟩
    · exact absurd hheader.opensClause hopens
  · rintro ⟨hfinal, rest, rfl, hon⟩
    refine ⟨[], rest, (readsClauses_iff hcs).2 (.inl ⟨rfl, rfl⟩), ?_, ?_⟩
    · rw [Clause.mapAll_nil, List.append_nil]
      exact hfinal
    · rw [Clause.mapAll_nil, Block.add_nil]
      exact hon

/-- Where a clause begins, a switch goes on with it. -/
theorem readsBlock_clause_iff (hopens : OpensClause cs) :
    ReadsBlock o total depth block close cs ↔
      ∃ header mid, ReadsClauseHeader cs header mid ∧
        ReadsOn o total (depth + 1) true [] (fun children stop =>
          o.enforced (earlyFallthrough? children) = none ∧
            ReadsBlock o total depth (block.add [⟨header.map (placeIn total), children⟩]) close
              stop) mid := by
  constructor
  · rintro ⟨clauses, rest, hclauses, hfinal, hon⟩
    rcases (readsClauses_iff hopens.stops).1 hclauses with
      ⟨rfl, -⟩ | ⟨header, mid, children, stop, more, hheader, hbody, hearly, hmore, rfl⟩
    · exact absurd hopens (not_opensClause_of_closes (List.prefix_append ['\x7d'] rest))
    · refine ⟨header, mid, hheader, children, stop, hbody, ?_, more, rest, hmore, ?_, ?_⟩
      · rw [List.nil_append, earlyFallthrough?_map, Options.enforced_map_eq_none_iff]
        exact hearly
      · rw [Block.add, List.append_assoc]
        exact hfinal
      · rw [Block.add_add]
        exact hon
  · rintro ⟨header, mid, hheader, children, stop, hbody, hearly, more, rest, hmore, hfinal, hon⟩
    rw [List.nil_append, earlyFallthrough?_map, Options.enforced_map_eq_none_iff] at hearly
    refine ⟨⟨header, children⟩ :: more, rest, (readsClauses_iff hopens.stops).2
      (.inr ⟨header, mid, children, stop, more, hheader, hbody, hearly, hmore, rfl⟩), ?_, ?_⟩
    · rw [Block.add, List.append_assoc] at hfinal
      exact hfinal
    · rw [Block.add_add] at hon
      exact hon

/-! ## What a step makes of a demand -/

/-- The step keeps the demand `P`, meets it or rules it out. -/
def Step.Meets (o : Options) (total : Nat) (final : List (Node Nat)) (P : Prop) : Step → Prop
  | .advance _ stage rest => rest.Fits total ∧ (P ↔ Demands o total final stage rest.chars)
  | .finish nodes => P ↔ final = nodes
  | .fail _ _ => ¬P

theorem Step.Meets.congr (h : s.Meets o total final Q) (hPQ : P ↔ Q) :
    s.Meets o total final P := by
  cases s with
  | advance events stage rest => exact ⟨h.1, hPQ.trans h.2⟩
  | finish nodes => exact hPQ.trans h
  | fail events failure => exact fun hP => h (hPQ.1 hP)

/-! ## Nodes -/

/-- A node that is one expression of the source is read, or is not, as a whole. -/
theorem readsNext_iff {reads : Fragment (List Char) → List Char → Prop}
    {make : Fragment (List Char) → Node (List Char)} {makeAt : Fragment Nat → Node Nat}
    {expression : Fragment Nat}
    (hnode : ∀ node mid, ReadsNode o depth lineStart cs node mid ↔
      ∃ piece, reads piece mid ∧ node = make piece)
    (hmake : ∀ piece, (make piece).map (placeIn total) = makeAt (piece.map (placeIn total)))
    (hreads : ∃ piece, reads piece rest ∧ expression = piece.map (placeIn total))
    (hunique : ∀ piece mid, reads piece mid →
      expression = piece.map (placeIn total) ∧ rest = mid) :
    ReadsNext o total depth lineStart nodes close cs ↔
      ReadsOn o total depth false (nodes ++ [makeAt expression]) close rest := by
  constructor
  · rintro ⟨node, mid, hread, hon⟩
    obtain ⟨piece, hpiece, rfl⟩ := (hnode node mid).1 hread
    obtain ⟨rfl, rfl⟩ := hunique piece mid hpiece
    rw [hmake] at hon
    exact hon
  · intro hon
    obtain ⟨piece, hpiece, rfl⟩ := hreads
    refine ⟨make piece, rest, (hnode _ _).2 ⟨piece, hpiece, rfl⟩, ?_⟩
    rw [hmake]
    exact hon

theorem stepFallthrough_meets (ht : t.Fits total) (hkeyword : Keyword.fallthrough <+: t.chars) :
    (stepFallthrough around nodes t).Meets o total final
      (ReadsNext o total around.length true nodes (Closes o total final around) t.chars) := by
  unfold stepFallthrough
  split
  next failure hx =>
    rintro ⟨node, mid, hnode, -⟩
    obtain ⟨-, keyword, hread, rfl⟩ := (readsNode_fallthrough_iff hkeyword).1 hnode
    obtain ⟨x, hx', -⟩ := hread.extractFallthrough ht
    exact absurd (hx.symm.trans hx') nofun
  next x hx =>
    obtain ⟨keyword, hread, hexpr, hfits⟩ := ReadsFallthrough.of_extractFallthrough ht hx
    split
    next hempty =>
      rintro ⟨node, mid, hnode, -⟩
      obtain ⟨hdepth, -⟩ := (readsNode_fallthrough_iff hkeyword).1 hnode
      rw [List.isEmpty_iff.1 hempty] at hdepth
      exact hdepth rfl
    next hempty =>
      have hdepth : around.length ≠ 0 := by
        rw [Ne, List.length_eq_zero_iff, ← List.isEmpty_iff]
        exact hempty
      have hnode : ∀ node mid, ReadsNode o around.length true t.chars node mid ↔
          ∃ piece, ReadsFallthrough t.chars piece mid ∧ node = .fallthrough piece := by
        intro node mid
        rw [readsNode_fallthrough_iff hkeyword]
        exact and_iff_right hdepth
      refine ⟨hfits, readsNext_iff hnode (fun _ => rfl) ⟨keyword, hread, hexpr⟩
        fun piece mid hpiece => ?_⟩
      obtain ⟨x', hx', hexpr', hrest, -⟩ := hpiece.extractFallthrough ht
      cases hx.symm.trans hx'
      exact ⟨hexpr', hrest⟩

theorem stepOutput_meets (ht : t.Fits total) (hbrace : ['\x7b'] <+: t.chars) :
    (stepOutput around nodes t).Meets o total final
      (ReadsNext o total around.length lineStart nodes (Closes o total final around) t.chars) := by
  unfold stepOutput
  split
  next failure hx =>
    rintro ⟨node, mid, hnode, -⟩
    obtain ⟨expression, hread, rfl⟩ := (readsNode_output_iff hbrace).1 hnode
    obtain ⟨x, hx', -⟩ := hread.extractOutput ht
    exact absurd (hx.symm.trans hx') nofun
  next x hx =>
    obtain ⟨expression, hread, hexpr, hfits⟩ := ReadsOutput.of_extractOutput ht hx
    refine ⟨hfits, readsNext_iff (fun node mid => readsNode_output_iff hbrace) (fun _ => rfl)
      ⟨expression, hread, hexpr⟩ fun piece mid hpiece => ?_⟩
    obtain ⟨x', hx', hexpr', hrest, -⟩ := hpiece.extractOutput ht
    cases hx.symm.trans hx'
    exact ⟨hexpr', hrest⟩

theorem stepText_meets (ht : t.Fits total) (hstart : Stops isWhiteSpace t.chars)
    (hkeyword : lineStart = true → ¬OpensStatement t.chars) (hbrace : ¬['\x7b'] <+: t.chars) :
    (stepText around nodes t).Meets o total final
      (ReadsNext o total around.length lineStart nodes (Closes o total final around) t.chars) := by
  simp only [stepText]
  split
  next hempty =>
    rintro ⟨node, mid, hnode, -⟩
    obtain ⟨content, hread, rfl⟩ := (readsNode_text_iff hkeyword hbrace).1 hnode
    exact (hread.takeWhile ht).1 (List.isEmpty_iff.1 hempty)
  next hempty =>
    have hvalue : trimEnd (t.chars.takeWhile fun c => !endsText c) ≠ [] := by
      rw [Ne, ← List.isEmpty_iff]
      exact hempty
    obtain ⟨content, hread, hexpr⟩ := ReadsText.of_takeWhile ht hstart hvalue
    refine ⟨ht.skipWhile _, readsNext_iff (fun node mid => readsNode_text_iff hkeyword hbrace)
      (fun _ => rfl) ⟨content, hread, hexpr⟩ fun piece mid hpiece => ?_⟩
    exact ⟨(hpiece.takeWhile ht).2.2, (hpiece.takeWhile ht).2.1⟩

/-- Behind the keyword the step opens a block within the limit, or the grammar has no node there. -/
theorem stepSwitch_meets (ht : t.Fits total)
    (hkeyword : Keyword.spaced Keyword.switch <+: t.chars) :
    (stepSwitch o around nodes t).Meets o total final
      (ReadsNext o total around.length true nodes (Closes o total final around) t.chars) := by
  -- A derivation gives the header that the readers take.
  have hheader : ∀ {node mid}, ReadsNode o around.length true t.chars node mid →
      ∃ x u tag clauses, extractSwitch t = .ok x ∧ x.rest.dropBlockOpening? = some u ∧
        x.expression = tag.map (placeIn total) ∧ o.limitReached? around.length = none ∧
        ReadsClauses o around.length u.chars clauses mid ∧
        o.enforced (finalFallthrough? clauses) = none ∧
        node = .switch tag clauses ⟨t.chars, mid⟩ := by
    intro node mid hnode
    obtain ⟨tag, block, clauses, hread, hlimit, hclauses, hfinal, rfl⟩ :=
      (readsNode_switch_iff hkeyword).1 hnode
    obtain ⟨x, u, hx, hexpr, hu, rfl, -⟩ := hread.extractSwitch ht
    exact ⟨x, u, tag, clauses, hx, hu, hexpr, hlimit, hclauses, hfinal, rfl⟩
  unfold stepSwitch
  split
  next failure hx =>
    rintro ⟨node, mid, hnode, -⟩
    obtain ⟨x, u, tag, clauses, hx', -⟩ := hheader hnode
    exact absurd (hx.symm.trans hx') nofun
  next x hx =>
    split
    next hnone =>
      rintro ⟨node, mid, hnode, -⟩
      obtain ⟨x', u, tag, clauses, hx', hu, -⟩ := hheader hnode
      cases hx.symm.trans hx'
      exact absurd (hnone.symm.trans hu) nofun
    next rest hrest =>
      obtain ⟨tag, hread, hexpr, hfits⟩ := ReadsSwitchHeader.of_extractSwitch ht hkeyword hx hrest
      split
      next limit hlimit =>
        rintro ⟨node, mid, hnode, -⟩
        obtain ⟨x', u, tag, clauses, -, -, -, hlimit', -⟩ := hheader hnode
        exact absurd (hlimit.symm.trans hlimit') nofun
      next hlimit =>
        refine ⟨hfits, ?_⟩
        constructor
        · rintro ⟨node, mid, hnode, hon⟩
          obtain ⟨x', u, tag, clauses, hx', hu, hexpr, -, hclauses, hfinal, rfl⟩ := hheader hnode
          cases hx.symm.trans hx'
          cases hrest.symm.trans hu
          refine ⟨clauses, mid, hclauses, ?_, ?_⟩
          · rw [List.nil_append, finalFallthrough?_map, Options.enforced_map_eq_none_iff]
            exact hfinal
          · rw [hexpr, ht.offset_eq]
            exact hon
        · rintro ⟨clauses, mid, hclauses, hfinal, hon⟩
          rw [List.nil_append, finalFallthrough?_map, Options.enforced_map_eq_none_iff] at hfinal
          refine ⟨.switch tag clauses ⟨t.chars, mid⟩, mid,
            .switch rfl hread hlimit hclauses hfinal, ?_⟩
          rw [hexpr, ht.offset_eq] at hon
          exact hon

/-- The step reads the node that the grammar has, or the grammar has none. -/
theorem stepNode_meets (ht : t.Fits total) (hstart : Stops isWhiteSpace t.chars) :
    (stepNode o around nodes lineStart t).Meets o total final
      (ReadsNext o total around.length lineStart nodes (Closes o total final around) t.chars) := by
  unfold stepNode
  split
  next h =>
    obtain ⟨rfl, hkeyword⟩ := Bool.and_eq_true_iff.1 h
    exact stepFallthrough_meets ht (Tail.startsWith_iff.1 hkeyword)
  next hfallthrough =>
    split
    next h =>
      obtain ⟨rfl, hkeyword⟩ := Bool.and_eq_true_iff.1 h
      exact stepSwitch_meets ht (Tail.startsWith_iff.1 hkeyword)
    next hswitch =>
      split
      next hbrace => exact stepOutput_meets ht (Tail.startsWith_iff.1 hbrace)
      next hbrace =>
        refine stepText_meets ht hstart ?_ (mt Tail.startsWith_iff.2 hbrace)
        rintro rfl (h | h)
        · exact hfallthrough (Bool.and_eq_true_iff.2 ⟨rfl, Tail.startsWith_iff.2 h⟩)
        · exact hswitch (Bool.and_eq_true_iff.2 ⟨rfl, Tail.startsWith_iff.2 h⟩)

/-! ## Blocks and bodies -/

theorem Tail.Fits.skipHeaderEnd (ht : t.Fits total) : t.skipHeaderEnd.Fits total := by
  rw [Tail.skipHeaderEnd]
  have hblanks : t.skipBlanks.Fits total := ht.skipWhile isBlank
  cases hu : t.skipBlanks.dropLineEnd? with
  | none => exact hblanks
  | some u => exact ((Tail.dropLineEnd?_eq_some_iff hblanks).1 hu).2

/-- What is skipped behind a clause header is white space. -/
theorem exists_white_append_skipHeaderEnd (t : Tail) :
    ∃ gap, IsRun isWhiteSpace gap ∧ t.chars = gap ++ t.skipHeaderEnd.chars := by
  have hcut : t.chars = t.chars.takeWhile isBlank ++ t.skipBlanks.chars :=
    List.takeWhile_append_dropWhile.symm
  have hblanks : IsRun isWhiteSpace (t.chars.takeWhile isBlank) :=
    (isRun_takeWhile isBlank t.chars).mono fun _ h => isWhiteSpace_of_isBlank h
  rw [Tail.skipHeaderEnd]
  cases hu : t.skipBlanks.dropLineEnd? with
  | none => exact ⟨_, hblanks, hcut⟩
  | some u =>
    have hfits : t.skipBlanks.Fits (t.skipBlanks.offset + byteLength t.skipBlanks.chars) := rfl
    obtain ⟨⟨lineEnd, hend, hchars⟩, -⟩ := (Tail.dropLineEnd?_eq_some_iff hfits).1 hu
    refine ⟨t.chars.takeWhile isBlank ++ lineEnd, isRun_append.2 ⟨hblanks, ?_⟩, ?_⟩
    · rcases hend with rfl | rfl
      · exact isRun_cons.2 ⟨by decide, isRun_nil⟩
      · exact isRun_cons.2 ⟨by decide, isRun_cons.2 ⟨by decide, isRun_nil⟩⟩
    · rw [List.append_assoc, Option.getD_some, ← hchars]
      exact hcut

/-- The step opens the clause that the grammar has, or the grammar has no such block. -/
theorem openClause_meets (ht : t.Fits total) (hopens : OpensClause t.chars) :
    (openClause around block t).Meets o total final
      (ReadsBlock o total around.length block (Closes o total final around) t.chars) := by
  refine Step.Meets.congr ?_ (readsBlock_clause_iff hopens)
  unfold openClause
  split
  next failure hx =>
    rintro ⟨header, mid, hheader, -⟩
    obtain ⟨x, hx', -⟩ := hheader.extractCase ht
    exact absurd (hx.symm.trans hx') nofun
  next x hx =>
    obtain ⟨header, hheader, hexpr, hfits⟩ := ReadsClauseHeader.of_extractCase ht hopens hx
    obtain ⟨gap, hgap, hskip⟩ := exists_white_append_skipHeaderEnd x.rest
    refine ⟨hfits.skipHeaderEnd, ?_⟩
    have hdemand : Demands o total final (.body (⟨block, clauseHeader t x⟩ :: around) [] true)
        x.rest.skipHeaderEnd.chars ↔ ReadsOn o total (around.length + 1) true []
          (Closes o total final (⟨block, clauseHeader t x⟩ :: around)) x.rest.chars := by
      rw [hskip, readsOn_gap_iff hgap, Bool.true_or]
      rfl
    refine Iff.trans ?_ hdemand.symm
    constructor
    · rintro ⟨header', mid, hheader', hon⟩
      obtain ⟨x', hx', hexpr', hrest, -⟩ := hheader'.extractCase ht
      cases hx.symm.trans hx'
      rw [← hexpr', ← hrest] at hon
      exact hon
    · intro hon
      refine ⟨header, x.rest.chars, hheader, ?_⟩
      rw [← hexpr]
      exact hon

/-- The step closes the block as the grammar does, or the grammar has no such block. -/
theorem closeBlock_meets {events : List Event} (ht : t.Fits total)
    (hstart : Stops isWhiteSpace t.chars) (hopens : ¬OpensClause t.chars) :
    (closeBlock o around block events t).Meets o total final
      (ReadsBlock o total around.length block (Closes o total final around) t.chars) := by
  refine Step.Meets.congr ?_ (readsBlock_close_iff hstart hopens)
  unfold closeBlock
  split
  next place hplace =>
    rintro ⟨hfinal, -⟩
    exact absurd (hplace.symm.trans hfinal) nofun
  next hfinal =>
    split
    next hnone =>
      rintro ⟨-, rest, hrest, -⟩
      rw [Tail.drop?_eq_none_iff, hrest] at hnone
      exact hnone (List.prefix_append ['\x7d'] rest)
    next rest hrest =>
      obtain ⟨hchars, hfits⟩ := (Tail.drop?_eq_some_iff ht).1 hrest
      refine ⟨hfits, ?_⟩
      rw [hfits.offset_eq, hchars]
      constructor
      · rintro ⟨-, rest', hrest', hon⟩
        cases hrest'
        exact hon
      · intro hon
        exact ⟨hfinal, rest.chars, rfl, hon⟩

theorem closeClause_meets {frame : Frame} {children : List (Node Nat)} {next : Block → Step}
    (h : (next (frame.finish children)).Meets o total final P) :
    (closeClause o frame children next).Meets o total final
      (o.enforced (earlyFallthrough? children) = none ∧ P) := by
  unfold closeClause
  split
  next place hplace =>
    rintro ⟨hearly, -⟩
    exact absurd (hplace.symm.trans hearly) nofun
  next hearly => exact h.congr (and_iff_right hearly)

/-- Between clauses the step goes on as the block does in the grammar, or the grammar has none. -/
theorem stepBlock_meets (ht : t.Fits total) :
    (stepBlock o around block t).Meets o total final
      (ReadsBlock o total around.length block (Closes o total final around) t.chars) := by
  have hcut : t.chars = t.chars.takeWhile isWhiteSpace ++ t.skipWhiteSpace.chars :=
    List.takeWhile_append_dropWhile.symm
  have hgap := isRun_takeWhile isWhiteSpace t.chars
  have hfits : t.skipWhiteSpace.Fits total := ht.skipWhile isWhiteSpace
  have hstart : Stops isWhiteSpace t.skipWhiteSpace.chars := stops_dropWhile isWhiteSpace t.chars
  rw [hcut]
  refine Step.Meets.congr ?_ (readsBlock_gap_iff hgap)
  simp only [stepBlock]
  split
  next hopens => exact openClause_meets hfits (Tail.startsClause_iff.1 hopens)
  next hopens => exact closeBlock_meets hfits hstart (mt Tail.startsClause_iff.2 hopens)

/-- The demand of a body at its first visible character. -/
theorem readsOn_chars_iff (t : Tail) :
    ReadsOn o total depth lineStart nodes close t.chars ↔
      let lineStart' := lineStart || (t.chars.takeWhile isWhiteSpace).contains '\n'
      (EndsBody depth lineStart' t.skipWhiteSpace.chars ∧ close nodes t.skipWhiteSpace.chars) ∨
      (¬EndsBody depth lineStart' t.skipWhiteSpace.chars ∧
        ReadsNext o total depth lineStart' nodes close t.skipWhiteSpace.chars) := by
  have hcut : t.chars.takeWhile isWhiteSpace ++ t.skipWhiteSpace.chars = t.chars :=
    List.takeWhile_append_dropWhile
  have h : ReadsOn o total depth lineStart nodes close
      (t.chars.takeWhile isWhiteSpace ++ t.skipWhiteSpace.chars) ↔ _ :=
    readsOn_gap_iff (isRun_takeWhile isWhiteSpace t.chars)
  rw [hcut] at h
  exact h.trans (readsOn_iff (stops_dropWhile isWhiteSpace t.chars))

/-- Outside all switches, the body ends with the source. -/
theorem stepBody_nil_meets (ht : t.Fits total) :
    (stepBody o [] nodes lineStart t).Meets o total final
      (ReadsOn o total 0 lineStart nodes (Closes o total final []) t.chars) := by
  refine Step.Meets.congr ?_ (readsOn_chars_iff t)
  simp only [stepBody, endsBody_zero_iff]
  split
  next hempty =>
    have hnil : t.skipWhiteSpace.chars = [] := List.isEmpty_iff.1 hempty
    constructor
    · rintro (⟨-, hfinal⟩ | ⟨hmore, -⟩)
      · exact hfinal
      · exact absurd hnil hmore
    · intro hfinal
      exact .inl ⟨hnil, hfinal⟩
  next hempty =>
    have hmore : t.skipWhiteSpace.chars ≠ [] := fun h => hempty (List.isEmpty_iff.2 h)
    rw [or_iff_right fun h => hmore h.1, and_iff_right hmore]
    exact stepNode_meets (ht.skipWhile isWhiteSpace) (stops_dropWhile isWhiteSpace t.chars)

/-- In a clause, the body ends at a closing brace or at the header of the next clause. -/
theorem stepBody_cons_meets {frame : Frame} {outer : List Frame} (ht : t.Fits total) :
    (stepBody o (frame :: outer) nodes lineStart t).Meets o total final
      (ReadsOn o total (outer.length + 1) lineStart nodes (Closes o total final (frame :: outer))
        t.chars) := by
  refine Step.Meets.congr ?_ (readsOn_chars_iff t)
  have hu : t.skipWhiteSpace.Fits total := ht.skipWhile isWhiteSpace
  have hstart : Stops isWhiteSpace t.skipWhiteSpace.chars := stops_dropWhile isWhiteSpace t.chars
  simp only [stepBody, endsBody_succ_iff]
  generalize t.skipWhiteSpace = u at hu hstart
  generalize (lineStart || (t.chars.takeWhile isWhiteSpace).contains '\n') = lineStart
  split
  next hbrace =>
    have hend := Tail.startsWith_iff.1 hbrace
    have hopens := not_opensClause_of_closes hend
    refine (closeClause_meets (closeBlock_meets hu hstart hopens)).congr ?_
    rw [or_iff_left fun h => h.1 (.inl hend), and_iff_right (.inl hend)]
    rfl
  next hbrace =>
    have hbrace' := mt Tail.startsWith_iff.2 hbrace
    split
    next hclause =>
      obtain ⟨rfl, hopens⟩ := Bool.and_eq_true_iff.1 hclause
      have hopens' := Tail.startsClause_iff.1 hopens
      refine (closeClause_meets (openClause_meets hu hopens')).congr ?_
      rw [or_iff_left fun h => h.1 (.inr ⟨rfl, hopens'⟩), and_iff_right (.inr ⟨rfl, hopens'⟩)]
      rfl
    next hclause =>
      have hmore : ¬(['\x7d'] <+: u.chars ∨ lineStart = true ∧ OpensClause u.chars) := by
        rintro (h | ⟨hline, hopens⟩)
        · exact hbrace' h
        · exact hclause (Bool.and_eq_true_iff.2 ⟨hline, Tail.startsClause_iff.2 hopens⟩)
      rw [or_iff_right fun h => hmore h.1, and_iff_right hmore]
      split
      next hempty =>
        -- At the end of the source nothing closes the switch.
        have hnil : u.chars = [] := List.isEmpty_iff.1 hempty
        have hnext : ¬ReadsNext o total (outer.length + 1) lineStart nodes
            (Closes o total final (frame :: outer)) u.chars := by
          rintro ⟨node, mid, hnode, -⟩
          exact hnode.ne_nil hnil
        have hopens : ¬OpensClause u.chars := by
          rw [hnil]
          exact not_opensClause_nil
        split
        next => exact hnext
        next =>
          refine (closeClause_meets (closeBlock_meets hu hstart hopens)).congr ?_
          rw [iff_false_left hnext, readsBlock_close_iff hstart hopens, hnil]
          rintro ⟨-, -, rest, hrest, -⟩
          cases hrest
      next => exact stepNode_meets hu hstart

/-- A step keeps what its stage demands. -/
theorem step_meets {stage : Stage} (ht : t.Fits total) :
    (step o stage t).Meets o total final (Demands o total final stage t.chars) := by
  cases stage with
  | body around nodes lineStart =>
    cases around with
    | nil => exact stepBody_nil_meets ht
    | cons frame outer => exact stepBody_cons_meets ht
  | block around block => exact stepBlock_meets ht

/-! ## Runs -/

/-- A run comes to a template exactly when the demand of its stage is met. -/
theorem run_eq_ok_iff {stage : Stage} (ht : t.Fits total) :
    (run o stage t).result = .ok final ↔ Demands o total final stage t.chars := by
  generalize hn : t.chars.length = n
  induction n using Nat.strongRecOn generalizing stage t with
  | ind n ih =>
    have hstep : (step o stage t).Meets o total final (Demands o total final stage t.chars) :=
      step_meets ht
    rw [run_eq]
    cases h : step o stage t with
    | advance events stage' rest =>
      rw [h] at hstep
      have hlt := length_lt_of_step h
      rw [hn] at hlt
      exact (ih _ hlt hstep.1 rfl).trans hstep.2.symm
    | finish nodes =>
      rw [h] at hstep
      refine Iff.trans ?_ hstep.symm
      rw [Except.ok.injEq, eq_comm]
    | fail events failure =>
      rw [h] at hstep
      exact iff_of_false nofun hstep

/-- A source holds a template exactly when the grammar derives the template from the source. -/
theorem readSource_eq_ok_iff :
    (readSource o cs).result = .ok final ↔
      ∃ nodes, ReadsBody o 0 true cs nodes [] ∧
        final = Template.map (placeIn (byteLength cs)) nodes := by
  rw [readSource, run_eq_ok_iff (Tail.fits_start cs)]
  constructor
  · rintro ⟨nodes, stop, hbody, hfinal⟩
    obtain ⟨lineStart, hend⟩ := hbody.endsBody
    rw [endsBody_zero_iff.1 hend] at hbody
    exact ⟨nodes, hbody, hfinal⟩
  · rintro ⟨nodes, hbody, hfinal⟩
    exact ⟨nodes, [], hbody, hfinal⟩

/-- The templates that a source holds are those that the grammar derives from it. -/
theorem parse_eq_ok_iff {source : String} {u : Template Position} :
    parse source o = .ok u ↔
      ∃ nodes, ReadsBody o 0 true source.toList nodes [] ∧
        u = Template.map (Source.ofString source).placeBefore nodes := by
  rw [parse, parseWithEvents, Outcome.map]
  have hread : ∀ final, (readSource o source.toList).result = .ok final ↔
      ∃ nodes, ReadsBody o 0 true source.toList nodes [] ∧
        final = Template.map (placeIn (byteLength source.toList)) nodes :=
    fun final => readSource_eq_ok_iff
  constructor
  · intro h
    cases hresult : (readSource o source.toList).result with
    | error failure =>
      rw [hresult] at h
      cases h
    | ok offsets =>
      rw [hresult] at h
      cases h
      obtain ⟨nodes, hbody, rfl⟩ := (hread offsets).1 hresult
      exact ⟨nodes, hbody, Template.map_map _ _ nodes⟩
  · rintro ⟨nodes, hbody, rfl⟩
    rw [(hread _).2 ⟨nodes, hbody, rfl⟩]
    exact congrArg Except.ok (Template.map_map _ _ nodes)

/-- A source holds a template of some shape exactly when the grammar derives one. -/
theorem exists_parse_eq_ok_iff {source : String} {shape : Template Unit} :
    (∃ u, parse source o = .ok u ∧ u.shape = shape) ↔
      ∃ nodes, ReadsBody o 0 true source.toList nodes [] ∧ Template.shape nodes = shape := by
  constructor
  · rintro ⟨u, hparse, hshape⟩
    obtain ⟨nodes, hbody, rfl⟩ := parse_eq_ok_iff.1 hparse
    rw [Template.shape_map] at hshape
    exact ⟨nodes, hbody, hshape⟩
  · rintro ⟨nodes, hbody, hshape⟩
    refine ⟨_, parse_eq_ok_iff.2 ⟨nodes, hbody, rfl⟩, ?_⟩
    rw [Template.shape_map]
    exact hshape

end SwitchMarkup

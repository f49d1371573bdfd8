import SwitchMarkup.Proofs.Parser.Advance
import SwitchMarkup.Proofs.Source.Lines
import SwitchMarkup.Proofs.Template.Log
import SwitchMarkup.Template.Equality

/-!
# What a parse reports

A switch is reported when its closing brace has been read, so that the reports of a parse list the
switches of its template, those inside of a switch in front of it. A search for a clause can only
pass over something and find nothing in front of the brace of a switch that has no clauses, and what
it passes over is the white space behind the line of the header. Main statement: `parse_log`.
-/

namespace SwitchMarkup

open Items

variable {o : Options} {block : Block} {stage stage' : Stage} {events : List Event} {t rest : Tail}
  {source cs front : List Char}

/-! ## Switches without clauses -/

/-- The offset just behind the first line feed at or behind an offset. -/
def nextLine (source : List Char) (offset : Nat) : Nat :=
  offset + byteLength ((dropBytes offset source).takeWhile (· != '\n')) + 1

/-- What is reported in front of a switch without clauses: if there is white space between the line
of its header and its closing brace, that a search went as far as the brace and back to the end of
that line. -/
def idleLog (source : List Char) (tag : Fragment Nat) (block : Span Nat) : List Event :=
  let start := nextLine source tag.span.stop
  let brace := block.stop - 1
  if (takeBytes (brace - start) (dropBytes start source)).any isWhiteSpace then
    [.rewound brace start]
  else []

theorem nextLine_placeIn (h : front ++ '\n' :: cs <:+ source) (hfront : '\n' ∉ front) :
    nextLine source (placeIn (byteLength source) (front ++ '\n' :: cs)) =
      placeIn (byteLength source) cs := by
  have hrun : IsRun (· != '\n') front := fun c hc => bne_iff_ne.2 fun heq => hfront (heq ▸ hc)
  have hstop : Stops (· != '\n') ('\n' :: cs) := stops_cons.2 rfl
  rw [nextLine, dropBytes_placeIn h, takeWhile_run hrun hstop]
  obtain ⟨lead, rfl⟩ := h
  have hsplit : lead ++ (front ++ '\n' :: cs) = (lead ++ front ++ ['\n']) ++ cs := by simp
  rw [placeIn_append_right, hsplit, placeIn_append_right, byteLength_append, byteLength_append]
  rfl

/-- Behind the tag of a header, the first line feed is the one that ends its line. -/
theorem ReadsSwitchHeader.exists_line {text : List Char} {tag : Fragment (List Char)}
    (h : ReadsSwitchHeader text tag cs) :
    ∃ front, tag.span.stop = front ++ '\n' :: cs ∧ '\n' ∉ front ∧ tag.span.stop <:+ text := by
  obtain @⟨gap, run, pad, lineEnd, cs, -, -, hcovers, hpad, hend⟩ := h
  obtain ⟨lead, trail, hlead, htrail, hcut, hspan⟩ :=
    Fragment.exists_span_ofRun run ('\x7b' :: (pad ++ (lineEnd ++ cs)))
  rw [hspan]
  have hfeedTrail : '\n' ∉ trail := by
    have hitems : Covers .tag (trim run ++ trail) := (hcut ▸ hcovers).of_white_append hlead
    exact (hitems.of_append (hitems.of_append_white htrail)).newline_not_mem nofun htrail
  have hfeedPad := newline_not_mem_of_blank hpad
  obtain ⟨early, hearly, hline⟩ : ∃ early, '\n' ∉ early ∧ lineEnd = early ++ ['\n'] := by
    rcases hend with rfl | rfl
    · exact ⟨[], nofun, rfl⟩
    · exact ⟨['\r'], by decide, rfl⟩
  refine ⟨trail ++ '\x7b' :: (pad ++ early), ?_, ?_, ?_⟩
  · rw [hline]
    simp
  · simp [hfeedTrail, hfeedPad, hearly]
  · refine ⟨Keyword.spaced Keyword.switch ++ (gap ++ (lead ++ trim run)), ?_⟩
    conv => rhs; rw [hcut]
    simp only [List.append_assoc]

/-- A switch without clauses is reported on as its closing brace is read. -/
theorem Block.OpenedAt.idleLog_eq (hblock : block.OpenedAt source t.chars)
    (ht : t.Fits (byteLength source)) (hrest : rest.Fits (byteLength source))
    (hbrace : t.skipWhiteSpace.chars = '\x7d' :: rest.chars) :
    idleLog source block.tag ⟨block.start, rest.offset⟩ = rewind t t.skipWhiteSpace := by
  obtain ⟨-, text, tag, htext, hheader, htag⟩ := hblock
  obtain ⟨front, hstop, hfront, hsuffix⟩ := hheader.exists_line
  have hu : t.skipWhiteSpace.Fits (byteLength source) := ht.skipWhile isWhiteSpace
  have hcut : t.chars = t.chars.takeWhile isWhiteSpace ++ t.skipWhiteSpace.chars :=
    List.takeWhile_append_dropWhile.symm
  have hwhite := isRun_takeWhile isWhiteSpace t.chars
  have hsource : front ++ '\n' :: t.chars <:+ source := hstop ▸ hsuffix.trans htext
  have hchars : t.chars <:+ source :=
    ((List.suffix_cons ..).trans (List.suffix_append front _)).trans hsource
  -- the line behind the header begins where the clauses were looked for
  have hstart : nextLine source block.tag.span.stop = t.offset := by
    rw [htag, ht.offset_eq, ← nextLine_placeIn hsource hfront, ← hstop]
    rfl
  -- the white space ends one byte in front of where the block ends
  have hclose : rest.offset - 1 = t.skipWhiteSpace.offset := by
    have hsum : t.skipWhiteSpace.offset + byteLength t.skipWhiteSpace.chars = byteLength source := hu
    have hsum' : rest.offset + byteLength rest.chars = byteLength source := hrest
    rw [hbrace, byteLength_cons] at hsum
    have hsize : '\x7d'.utf8Size = 1 := rfl
    omega
  have hoffset : t.skipWhiteSpace.offset = t.offset + byteLength (t.chars.takeWhile isWhiteSpace) :=
    rfl
  have hgap : takeBytes (t.skipWhiteSpace.offset - t.offset) (dropBytes t.offset source) =
      t.chars.takeWhile isWhiteSpace := by
    have htake := takeBytes_append (t.chars.takeWhile isWhiteSpace) t.skipWhiteSpace.chars
    rw [← hcut] at htake
    rw [hoffset, Nat.add_sub_cancel_left, ht.offset_eq, dropBytes_placeIn hchars, htake]
  simp only [idleLog, rewind, hstart, hclose, hgap]
  cases hrun : t.chars.takeWhile isWhiteSpace with
  | nil =>
    rw [hrun, byteLength_nil, Nat.add_zero] at hoffset
    rw [if_neg nofun, if_pos hoffset]
  | cons c run =>
    rw [hrun] at hoffset hwhite
    have hne : t.skipWhiteSpace.offset ≠ t.offset := by
      have hpos : 0 < c.utf8Size := c.utf8Size_pos
      rw [byteLength_cons] at hoffset
      omega
    rw [if_neg hne, if_pos]
    rw [List.any_cons, (isRun_cons.1 hwhite).1]
    rfl

/-! ## What has been reported so far -/

/-- The reports on the switches in front of a switch that is open inside `depth` others and on those
in its complete clauses. -/
def Block.log (source : List Char) (depth : Nat) (block : Block) : List Event :=
  Template.log (idleLog source) depth block.before ++
    Clause.log (idleLog source) (depth + 1) block.clauses

/-- The reports on all that is complete outside the body that is being read. -/
def framesLog (source : List Char) : List Frame → List Event
  | [] => []
  | frame :: outer => framesLog source outer ++ frame.block.log source outer.length

/-- The reports on all switches that are complete. -/
def Stage.log (source : List Char) : Stage → List Event
  | .body around nodes _ =>
    framesLog source around ++ Template.log (idleLog source) around.length nodes
  | .block around block => framesLog source around ++ block.log source around.length

theorem Node.IsLeaf.log_map {π ρ : Type} {idle : Fragment ρ → Span ρ → List Event} {depth : Nat}
    {node : Node π} (h : node.IsLeaf) (f : π → ρ) : (node.map f).log idle depth = [] := by
  cases node with
  | text | output | fallthrough => rfl
  | switch tag clauses block => exact absurd rfl (h tag clauses block)

/-- What a step reports is what the switch that it completes adds. -/
theorem Stage.StandsAt.log_step (hstage : stage.StandsAt source t)
    (h : step o stage t = .advance events stage' rest) :
    stage'.log source = stage.log source ++ events := by
  obtain ⟨hfits, hadvances⟩ := Advances.of_step hstage.fits h
  cases hadvances with
  | leaf _ hleaf => simp [Stage.log, hleaf.log_map]
  | opens => simp [Stage.log, Block.log]
  | firstClause => simp [Stage.log, framesLog]
  | nextClause => simp [Stage.log, framesLog, Frame.finish, Block.log]
  | @closesEmpty around block _ _ _ hbrace =>
    have hblock := hstage.opened around block rfl
    have hidle := hblock.idleLog_eq hstage.fits hfits hbrace
    simp [Stage.log, Block.close, Block.log, Node.log, hblock.no_clauses, hidle]
  | closes => simp [Stage.log, framesLog, Frame.finish, Block.close, Block.log, Node.log]

/-- A run that comes to a template has reported, in the end, what there is to report of it. -/
theorem run_log (o : Options) (stage : Stage) (t : Tail) :
    stage.StandsAt source t → ∀ {final}, (run o stage t).result = .ok final →
      Template.log (idleLog source) 0 final = stage.log source ++ (run o stage t).events := by
  fun_induction run o stage t with
  | case1 stage t events stage' rest hstep hlt ih =>
    intro hstage final h
    have hrest : Template.log (idleLog source) 0 final = _ := ih (hstage.next hstep) h
    rw [hrest, hstage.log_step hstep, List.append_assoc]
    rfl
  | case2 stage t nodes hstep =>
    intro hstage final h
    cases h
    obtain ⟨⟨lineStart, rfl⟩, -⟩ := exists_body_of_finish hstep
    exact (List.append_nil _).symm
  | case3 stage t events failure hstep =>
    intro hstage final h
    cases h

/-- An accepted source is reported on switch by switch, those inside of a switch in front of it, each
with its tag, the number of its clauses and the number of switches around it. Directly in front of
the report on a switch without clauses stands the one on the search for a clause, if the switch has
white space between the line of its header and its closing brace. -/
theorem parse_log (source : String) (o : Options) (t : Template Position)
    (h : parse source o = .ok t) :
    (parseWithEvents source o).events =
      Template.log (fun tag block => idleLog source.toList (tag.map Position.index)
        (block.map Position.index)) 0 t := by
  have hevents : (parseWithEvents source o).events = (readSource o source.toList).events := rfl
  rw [parse, parseWithEvents, Outcome.map] at h
  cases hresult : (readSource o source.toList).result with
  | error failure =>
    rw [hresult] at h
    cases h
  | ok offsets =>
    rw [hresult] at h
    cases h
    obtain ⟨nodes, -, rfl⟩ := readSource_eq_ok_iff.1 hresult
    have hlog := run_log o .initial _ (Stage.standsAt_initial source.toList) hresult
    have hplace : (Position.index ∘ (Source.ofString source).positionAt) ∘
        placeIn (byteLength source.toList) = placeIn (byteLength source.toList) :=
      funext fun rest => Source.index_placeBefore_eq (Source.ofString source) rest
    rw [hevents, ← Template.log_map, Template.map_map, Template.map_map, hplace, hlog]
    rfl

/-- A switch without clauses inside of another, with white space in front of its brace. -/
theorem parse_log_nested :
    (∃ t, parse "switch a \x7b\ncase 1:\nswitch b \x7b\n \n\x7d\n\x7d" = .ok t) ∧
    (parseWithEvents "switch a \x7b\ncase 1:\nswitch b \x7b\n \n\x7d\n\x7d").events =
      [.rewound 32 30, .parsedSwitch "b" 0 1, .parsedSwitch "a" 1 0] := by
  have hparse : parse "switch a \x7b\ncase 1:\nswitch b \x7b\n \n\x7d\n\x7d" = .ok [
      .switch ⟨"a", ⟨⟨7, 1, 8⟩, ⟨8, 1, 9⟩⟩⟩
        [⟨.case ⟨"1", ⟨⟨16, 2, 6⟩, ⟨17, 2, 7⟩⟩⟩, [
          .switch ⟨"b", ⟨⟨26, 3, 8⟩, ⟨27, 3, 9⟩⟩⟩ [] ⟨⟨19, 3, 1⟩, ⟨33, 5, 2⟩⟩]⟩]
        ⟨⟨0, 1, 1⟩, ⟨35, 6, 2⟩⟩] := by
    decide +kernel
  refine ⟨⟨_, hparse⟩, ?_⟩
  rw [parse_log _ _ _ hparse]
  decide +kernel

end SwitchMarkup

import SwitchMarkup.Proofs.Expression.LineEnds
import SwitchMarkup.Proofs.Parser.Concatenation
import SwitchMarkup.Proofs.Source.LineEnds
import SwitchMarkup.Template.Equality

/-!
# Sources with the other line ends

Line ends are passed over in four ways: as white space in front of a node, as the end of a header
line, as an item of an expression and as the end of a text. In each of them a carriage return and a
line feed do what a line feed does alone. So a step in the one spelling of a source is a step in the
other, from one related stage to the next, and a parse of both comes to the same: the same tree, its
expressions spelled in the same way as their source, or the same failure, each at the same line and
column. Main statement: `parse_crlf`.
-/

namespace SwitchMarkup

open Items

variable {o : Options} {src cs rest word : List Char} {kind : Kind} {t u : Tail}
  {x : Extraction} {context : Context} {around : List Frame} {nodes : List (Node Nat)}
  {block : Block} {lineStart : Bool}

/-! ## Extractions -/

/-- The same extraction, or the same refusal, in the other spelling of `src`. -/
def respeltExtraction (src : List Char) :
    Except (Failure Nat) Extraction → Except (Failure Nat) Extraction
  | .ok x => .ok ⟨x.expression.respelt src, x.rest.respelt src⟩
  | .error failure => .error (failure.map (moved src))

theorem Tail.Reads.goTo_afterItems_respelt (h : t.Reads src) (hsrc : Plain src) :
    (t.respelt src).goTo (afterItems kind (t.respelt src).chars) =
      (t.goTo (afterItems kind t.chars)).respelt src := by
  show (t.respelt src).goTo (afterItems kind (crlf t.chars)) = _
  rw [afterItems_crlf (h.plain hsrc), h.goTo_respelt (afterItems_suffix kind t.chars)]

/-- What stands in front of a suffix, without the white space around it. -/
theorem Tail.Reads.trimmed_upTo_respelt (h : t.Reads src) (hrest : rest <:+ t.chars) :
    Fragment.trimmed (t.respelt src).offset (upTo (crlf rest) (t.respelt src).chars) =
      (Fragment.trimmed t.offset (upTo rest t.chars)).respelt src := by
  obtain ⟨run, hrun⟩ := hrest
  have hreads : (⟨t.offset, run ++ rest⟩ : Tail).Reads src := hrun ▸ h
  have hupTo : upTo (crlf rest) (t.respelt src).chars = crlf run := by
    rw [Tail.respelt, ← hrun, crlf_append, upTo_eq]
  rw [hupTo, ← hrun, upTo_eq]
  exact Fragment.trimmed_respelt hreads

/-- A word without line ends, at the place of a tail that begins with it. -/
theorem Tail.Reads.ofChars_respelt (h : t.Reads src) (hfeed : '\n' ∉ word)
    (hword : word <+: t.chars) :
    Fragment.ofChars (moved src t.offset) word = (Fragment.ofChars t.offset word).respelt src := by
  obtain ⟨more, hmore⟩ := hword
  have hreads : (⟨t.offset, word ++ more⟩ : Tail).Reads src := hmore ▸ h
  have hpiece := Fragment.ofChars_respelt hreads
  rw [crlf_eq_self hfeed] at hpiece
  exact hpiece

/-- An end of a text is as long as the text in one spelling just where it is in the other. -/
theorem length_crlf_eq_iff (h : rest <:+ cs) :
    (crlf rest).length = (crlf cs).length ↔ rest.length = cs.length := by
  obtain ⟨run, rfl⟩ := h
  have hnil : (crlf run).length = 0 ↔ run.length = 0 := by
    rw [List.length_eq_zero_iff, List.length_eq_zero_iff, crlf_eq_nil_iff]
  rw [crlf_append, List.length_append, List.length_append]
  omega

theorem extract_reads (context : Context) (h : t.Reads src) (hx : extract context t = .ok x) :
    x.rest.Reads src := by
  obtain ⟨expression, hheader, -, hfits⟩ := exists_isHeader h.fits hx
  exact ⟨hfits, hheader.suffix.trans h.suffix⟩

theorem Tail.Reads.drop?_bind_skipBlanks?_respelt (h : t.Reads src) (hfeed : '\n' ∉ word)
    (hreturn : '\r' ∉ word) :
    ((t.respelt src).drop? word).bind Tail.skipBlanks? =
        ((t.drop? word).bind Tail.skipBlanks?).map (Tail.respelt src) := by
  rw [h.drop?_respelt hfeed hreturn]
  exact bind_respelt fun u hu => (h.drop? hu).skipBlanks?_respelt

theorem Tail.Reads.drop?_bind_skipBlanks? (h : t.Reads src)
    (hu : (t.drop? word).bind Tail.skipBlanks? = some u) : u.Reads src := by
  obtain ⟨v, hv, hskip⟩ := Option.bind_eq_some_iff.1 hu
  rw [Tail.skipBlanks?] at hskip
  split at hskip
  · cases hskip
    exact (h.drop? hv).skipBlanks
  · cases hskip

/-- The header of a `switch` is extracted, or refused, in the other spelling as well. -/
theorem extractSwitch_respelt (h : t.Reads src) (hsrc : Plain src) :
    extractSwitch (t.respelt src) = respeltExtraction src (extractSwitch t) := by
  rw [extractSwitch, extractSwitch,
    h.drop?_bind_skipBlanks?_respelt (by decide) (by decide)]
  cases hu : (t.drop? Keyword.switch).bind Tail.skipBlanks? with
  | none => rfl
  | some u =>
    have hreads := h.drop?_bind_skipBlanks? hu
    have htag := hreads.trimmed_upTo_respelt (afterItems_suffix .tag u.chars)
    simp only [Option.map_some, hreads.goTo_afterItems_respelt hsrc, atLineBreak_respelt]
    rw [Tail.startsWith_respelt (by decide) (by decide)]
    split
    · exact congrArg Except.ok (congrArg (Extraction.mk · _) htag)
    · rfl

theorem extractCase_respelt (h : t.Reads src) (hsrc : Plain src) :
    extractCase (t.respelt src) = respeltExtraction src (extractCase t) := by
  have hdefault : ((t.respelt src).drop? Keyword.default).bind (fun u => u.skipBlanks.drop? [':']) =
      ((t.drop? Keyword.default).bind fun u => u.skipBlanks.drop? [':']).map
        (Tail.respelt src) := by
    rw [h.drop?_respelt (by decide) (by decide)]
    refine bind_respelt fun u hu => ?_
    have hreads := h.drop? hu
    rw [hreads.skipBlanks_respelt, hreads.skipBlanks.drop?_respelt (by decide) (by decide)]
  rw [extractCase, extractCase,
    h.drop?_bind_skipBlanks?_respelt (by decide) (by decide), hdefault]
  cases hu : (t.drop? Keyword.case).bind Tail.skipBlanks? with
  | none =>
    cases hrest : (t.drop? Keyword.default).bind fun u => u.skipBlanks.drop? [':'] with
    | none => rfl
    | some rest =>
      obtain ⟨u, hu, -⟩ := Option.bind_eq_some_iff.1 hrest
      have hword : Keyword.default <+: t.chars := ⟨u.chars, (Tail.drop?_eq_some hu).1.symm⟩
      have hpiece := h.ofChars_respelt (by decide) hword
      exact congrArg Except.ok (congrArg (Extraction.mk · _) hpiece)
  | some u =>
    have hreads := h.drop?_bind_skipBlanks? hu
    have hsuffix := afterItems_suffix .list u.chars
    have hlist := hreads.trimmed_upTo_respelt hsuffix
    simp only [Option.map_some, hreads.goTo_afterItems_respelt hsrc]
    show (if (crlf (afterItems .list u.chars)).length = (crlf u.chars).length then _ else _) =
      respeltExtraction src
        (if (afterItems .list u.chars).length = u.chars.length then _ else _)
    rw [(hreads.goTo hsuffix).drop?_respelt (by decide) (by decide)]
    simp only [length_crlf_eq_iff hsuffix]
    split
    · rfl
    · cases (u.goTo (afterItems .list u.chars)).drop? [':'] with
      | none => rfl
      | some rest => exact congrArg Except.ok (congrArg (Extraction.mk · _) hlist)

theorem extractFallthrough_respelt (h : t.Reads src) :
    extractFallthrough (t.respelt src) = respeltExtraction src (extractFallthrough t) := by
  rw [extractFallthrough, extractFallthrough, h.drop?_respelt (by decide) (by decide)]
  cases hu : t.drop? Keyword.fallthrough with
  | none => rfl
  | some u =>
    have hword : Keyword.fallthrough <+: t.chars := ⟨u.chars, (Tail.drop?_eq_some hu).1.symm⟩
    simp only [Option.map_some, (h.drop? hu).skipBlanks_respelt, atLineBreak_respelt]
    split
    · have hpiece := h.ofChars_respelt (by decide) hword
      exact congrArg Except.ok (congrArg (Extraction.mk · _) hpiece)
    · rfl

theorem extractOutput_respelt (h : t.Reads src) (hsrc : Plain src) :
    extractOutput (t.respelt src) = respeltExtraction src (extractOutput t) := by
  rw [extractOutput, extractOutput, h.drop?_respelt (by decide) (by decide)]
  cases hu : t.drop? ['\x7b'] with
  | none => rfl
  | some u =>
    have hreads := h.drop? hu
    have hsuffix := afterItems_suffix .braced u.chars
    have hbody := hreads.trimmed_upTo_respelt hsuffix
    simp only [Option.map_some, hreads.goTo_afterItems_respelt hsrc]
    rw [(hreads.goTo hsuffix).drop?_respelt (by decide) (by decide)]
    cases (u.goTo (afterItems .braced u.chars)).drop? ['\x7d'] with
    | none => rfl
    | some rest =>
      have hexpression : Fragment.trimmed (u.respelt src).offset
          (upTo ((u.goTo (afterItems .braced u.chars)).respelt src).chars (u.respelt src).chars) =
            (Fragment.trimmed u.offset
              (upTo (u.goTo (afterItems .braced u.chars)).chars u.chars)).respelt src := hbody
      have hempty : ∀ expression : Fragment Nat,
          (expression.respelt src).value.isEmpty = expression.value.isEmpty :=
        fun expression => isEmpty_toCrlf expression.value
      simp only [Option.map_some, hexpression, hempty]
      split
      · rfl
      · rfl

/-! ## Stages -/

/-- The same nodes in the other spelling of `src`. -/
def Template.respelt (src : List Char) (nodes : List (Node Nat)) : List (Node Nat) :=
  Template.map (moved src) (Template.respell toCrlf nodes)

/-- The same clauses in the other spelling of `src`. -/
def Clause.respeltAll (src : List Char) (clauses : List (Clause Nat)) : List (Clause Nat) :=
  Clause.mapAll (moved src) (Clause.respellAll toCrlf clauses)

/-- The same open switch in the other spelling of `src`. -/
def Block.respelt (src : List Char) (block : Block) : Block :=
  ⟨Template.respelt src block.before, moved src block.start, block.tag.respelt src,
    Clause.respeltAll src block.clauses⟩

/-- The same frame in the other spelling of `src`. -/
def Frame.respelt (src : List Char) (frame : Frame) : Frame :=
  ⟨frame.block.respelt src, (frame.header.respell toCrlf).map (moved src)⟩

/-- The same stage in the other spelling of `src`. -/
def Stage.respelt (src : List Char) : Stage → Stage
  | .body around nodes lineStart =>
    .body (around.map (Frame.respelt src)) (Template.respelt src nodes) lineStart
  | .block around block => .block (around.map (Frame.respelt src)) (block.respelt src)

/-- The second step is the first one in the other spelling of `src`. Text takes the carriage return
behind it along, so what the second step leaves need only be read on in the same way. -/
def Step.Mirrors (o : Options) (src : List Char) : Step → Step → Prop
  | .advance _ stage rest, s' =>
    rest.Reads src ∧ ∃ events' rest', s' = .advance events' (stage.respelt src) rest' ∧
      step o (stage.respelt src) rest' = step o (stage.respelt src) (rest.respelt src)
  | .finish nodes, s' => s' = .finish (Template.respelt src nodes)
  | .fail _ failure, s' => ∃ events', s' = .fail events' (failure.map (moved src))

theorem Template.respelt_append (nodes more : List (Node Nat)) :
    Template.respelt src (nodes ++ more) =
      Template.respelt src nodes ++ Template.respelt src more := by
  rw [Template.respelt, Template.respell_append, Template.map_append]
  rfl

theorem Block.close_respelt (stop : Nat) :
    (block.respelt src).close (moved src stop) = Template.respelt src (block.close stop) := by
  rw [Block.close, Block.close, Template.respelt_append]
  rfl

theorem Frame.finish_respelt (frame : Frame) (children : List (Node Nat)) :
    (frame.respelt src).finish (Template.respelt src children) =
      (frame.finish children).respelt src := by
  rw [Frame.finish, Frame.finish, Frame.respelt, Block.respelt, Block.respelt, Clause.respeltAll,
    Clause.respeltAll, Clause.respellAll_append, Clause.mapAll_append]
  rfl

theorem enforced_earlyFallthrough?_respelt (children : List (Node Nat)) :
    o.enforced (earlyFallthrough? (Template.respelt src children)) =
      (o.enforced (earlyFallthrough? children)).map (moved src) := by
  rw [Template.respelt, earlyFallthrough?_map, earlyFallthrough?_respell, Options.enforced_map]

theorem enforced_finalFallthrough?_respelt (clauses : List (Clause Nat)) :
    o.enforced (finalFallthrough? (Clause.respeltAll src clauses)) =
      (o.enforced (finalFallthrough? clauses)).map (moved src) := by
  rw [Clause.respeltAll, finalFallthrough?_map, finalFallthrough?_respell, Options.enforced_map]

/-! ## Steps -/

theorem Step.mirrors_refuse (offset : Nat) (cause : Cause) :
    (Step.refuse offset cause).Mirrors o src (.refuse (moved src offset) cause) :=
  ⟨[], rfl⟩

theorem openClause_mirrors (h : t.Reads src) (hsrc : Plain src) :
    (openClause around block t).Mirrors o src
      (openClause (around.map (Frame.respelt src)) (block.respelt src) (t.respelt src)) := by
  rw [openClause, openClause, extractCase_respelt h hsrc]
  cases hx : extractCase t with
  | error failure => exact ⟨[], rfl⟩
  | ok x =>
    have hrest : x.rest.Reads src := extract_reads .case h hx
    simp only [respeltExtraction]
    rw [Tail.startsWith_respelt (by decide) (by decide), hrest.skipHeaderEnd_respelt hsrc]
    refine ⟨hrest.skipHeaderEnd, [], _, ?_, rfl⟩
    split
    · rfl
    · rfl

/-- The step that closes a block mirrors itself, whatever it reports. -/
theorem closeBlock_mirrors (events events' : List Event) (h : t.Reads src) :
    (closeBlock o around block events t).Mirrors o src
      (closeBlock o (around.map (Frame.respelt src)) (block.respelt src) events'
        (t.respelt src)) := by
  have hclauses : (block.respelt src).clauses = Clause.respeltAll src block.clauses := rfl
  rw [closeBlock, closeBlock, hclauses, enforced_finalFallthrough?_respelt]
  cases o.enforced (finalFallthrough? block.clauses) with
  | some place => exact Step.mirrors_refuse place _
  | none =>
    rw [h.drop?_respelt (by decide) (by decide)]
    cases hrest : t.drop? ['\x7d'] with
    | none => exact ⟨events', rfl⟩
    | some rest =>
      refine ⟨h.drop? hrest, events' ++ [.parsedSwitch (block.respelt src).tag.value
        (block.respelt src).clauses.length (around.map (Frame.respelt src)).length],
        rest.respelt src, ?_, rfl⟩
      rw [Stage.respelt, ← Block.close_respelt]
      rfl

/-- The step that ends a clause mirrors itself if the step behind it does. -/
theorem closeClause_mirrors (frame : Frame) (children : List (Node Nat))
    {next next' : Block → Step} (h : ∀ block : Block, (next block).Mirrors o src
      (next' (block.respelt src))) :
    (closeClause o frame children next).Mirrors o src
      (closeClause o (frame.respelt src) (Template.respelt src children) next') := by
  rw [closeClause, closeClause, enforced_earlyFallthrough?_respelt]
  cases o.enforced (earlyFallthrough? children) with
  | some place => exact Step.mirrors_refuse place _
  | none =>
    rw [Option.map_none, Frame.finish_respelt]
    exact h (frame.finish children)

theorem addNode_mirrors (node : Node Nat) (h : t.Reads src) :
    (addNode around nodes node t).Mirrors o src
      (addNode (around.map (Frame.respelt src)) (Template.respelt src nodes)
        ((node.respell toCrlf).map (moved src)) (t.respelt src)) := by
  refine ⟨h, [], _, ?_, rfl⟩
  rw [addNode, Stage.respelt, Template.respelt_append]
  rfl

/-- A piece without line feeds is spelled in only one way. -/
theorem Fragment.respelt_eq_map {piece : Fragment Nat} (h : '\n' ∉ piece.value.toList) :
    piece.respelt src = piece.map (moved src) := by
  rw [Fragment.respelt, Fragment.respell, toCrlf, crlf_eq_self h, String.ofList_toList]

/-- The value of a `fallthrough` is its keyword. -/
theorem extractFallthrough_value (h : extractFallthrough t = .ok x) :
    x.expression.value.toList = Keyword.fallthrough := by
  simp only [extractFallthrough] at h
  split at h
  · cases h
  · split at h
    · cases h
      rfl
    · cases h

theorem stepFallthrough_mirrors (h : t.Reads src) :
    (stepFallthrough around nodes t).Mirrors o src
      (stepFallthrough (around.map (Frame.respelt src)) (Template.respelt src nodes)
        (t.respelt src)) := by
  rw [stepFallthrough, stepFallthrough, extractFallthrough_respelt h, List.isEmpty_map]
  cases hx : extractFallthrough t with
  | error failure => exact ⟨[], rfl⟩
  | ok x =>
    have hrest : x.rest.Reads src := extract_reads .fallthrough h hx
    simp only [respeltExtraction]
    split
    · exact Step.mirrors_refuse _ _
    · rw [Fragment.respelt_eq_map (extractFallthrough_value hx ▸ by decide)]
      exact addNode_mirrors (.fallthrough x.expression) hrest

theorem stepSwitch_mirrors (h : t.Reads src) (hsrc : Plain src) :
    (stepSwitch o around nodes t).Mirrors o src
      (stepSwitch o (around.map (Frame.respelt src)) (Template.respelt src nodes)
        (t.respelt src)) := by
  rw [stepSwitch, stepSwitch, extractSwitch_respelt h hsrc, List.length_map]
  cases hx : extractSwitch t with
  | error failure => exact ⟨[], rfl⟩
  | ok x =>
    have hrest : x.rest.Reads src := extract_reads .switch h hx
    simp only [respeltExtraction, hrest.dropBlockOpening?_respelt hsrc]
    cases hopen : x.rest.dropBlockOpening? with
    | none => exact Step.mirrors_refuse t.offset _
    | some u =>
      simp only [Option.map_some]
      cases o.limitReached? around.length with
      | some limit => exact Step.mirrors_refuse t.offset _
      | none => exact ⟨hrest.dropBlockOpening? hopen, [], _, rfl, rfl⟩

/-- The step that reads an expression mirrors itself, with its line ends respelt. -/
theorem stepOutput_mirrors (h : t.Reads src) (hsrc : Plain src) :
    (stepOutput around nodes t).Mirrors o src
      (stepOutput (around.map (Frame.respelt src)) (Template.respelt src nodes)
        (t.respelt src)) := by
  rw [stepOutput, stepOutput, extractOutput_respelt h hsrc]
  cases hx : extractOutput t with
  | error failure => exact ⟨[], rfl⟩
  | ok x =>
    have hrest : x.rest.Reads src := extract_reads .output h hx
    exact addNode_mirrors (.output x.expression) hrest

/-- Text in the other spelling goes on up to the line feed, so a carriage return in front of that
stands at its end. -/
theorem exists_takeWhile_endsText_crlf (cs : List Char) :
    ∃ pad, (pad = [] ∨ pad = ['\r']) ∧
      (crlf cs).takeWhile (fun c => !endsText c) = cs.takeWhile (fun c => !endsText c) ++ pad ∧
      crlf (cs.dropWhile fun c => !endsText c) =
        pad ++ (crlf cs).dropWhile fun c => !endsText c := by
  have hcut := List.takeWhile_append_dropWhile (p := fun c => !endsText c) (l := cs)
  have hrun := isRun_takeWhile (fun c => !endsText c) cs
  have hstops := stops_dropWhile (fun c => !endsText c) cs
  generalize cs.takeWhile (fun c => !endsText c) = run at hcut hrun ⊢
  generalize cs.dropWhile (fun c => !endsText c) = rest at hcut hstops ⊢
  have hfeed : '\n' ∉ run := fun hmem => absurd (hrun '\n' hmem) (by decide)
  rw [← hcut, crlf_append, crlf_eq_self hfeed]
  by_cases hline : ∃ more, rest = '\n' :: more
  · obtain ⟨more, rfl⟩ := hline
    have hrun' : IsRun (fun c => !endsText c) (run ++ ['\r']) :=
      isRun_append.2 ⟨hrun, by decide⟩
    have hstops' : Stops (fun c => !endsText c) ('\n' :: crlf more) := stops_cons.2 rfl
    refine ⟨['\r'], .inr rfl, ?_, ?_⟩
    · rw [crlf_newline, List.append_cons, takeWhile_run hrun' hstops']
    · rw [crlf_newline, List.append_cons, dropWhile_run hrun' hstops']
      rfl
  · have hstops' : Stops (fun c => !endsText c) (crlf rest) := by
      cases rest with
      | nil => exact stops_nil
      | cons c more =>
        have hc : c ≠ '\n' := fun hc => hline ⟨more, by rw [hc]⟩
        rw [crlf_cons hc]
        exact stops_cons.2 (stops_cons.1 hstops)
    refine ⟨[], .inl rfl, ?_, ?_⟩
    · rw [takeWhile_run hrun hstops', List.append_nil]
    · rw [dropWhile_run hrun hstops', List.nil_append]

theorem newline_not_mem_takeWhile_endsText (cs : List Char) :
    '\n' ∉ cs.takeWhile fun c => !endsText c :=
  fun hmem => absurd (isRun_takeWhile (fun c => !endsText c) cs '\n' hmem) (by decide)

/-- What text leaves in the other spelling lies behind what it leaves in the first one, by white
space that has no line feed in it. -/
theorem Tail.Reads.exists_skipText_respelt (h : t.Reads src) :
    ∃ pad offset ds, IsRun isWhiteSpace pad ∧ pad.contains '\n' = false ∧
      (t.respelt src).chars.takeWhile (fun c => !endsText c) =
        t.chars.takeWhile (fun c => !endsText c) ++ pad ∧
      (t.skipWhile fun c => !endsText c).respelt src = ⟨offset, pad ++ ds⟩ ∧
      (t.respelt src).skipWhile (fun c => !endsText c) = ⟨offset + byteLength pad, ds⟩ := by
  obtain ⟨pad, hpad, htake, hdrop⟩ := exists_takeWhile_endsText_crlf t.chars
  have hmoved := h.moved_add (List.takeWhile_prefix fun c => !endsText c)
  rw [crlf_eq_self (newline_not_mem_takeWhile_endsText t.chars)] at hmoved
  refine ⟨pad, moved src (t.offset + byteLength (t.chars.takeWhile fun c => !endsText c)),
    (crlf t.chars).dropWhile fun c => !endsText c, ?_, ?_, htake, ?_, ?_⟩
  · rcases hpad with rfl | rfl <;> decide
  · rcases hpad with rfl | rfl <;> decide
  · rw [Tail.respelt, Tail.skipWhile, hdrop]
  · rw [Tail.skipWhile, Tail.respelt, htake, byteLength_append, hmoved, Nat.add_assoc]

/-- The trimmed text of a line is the same one, for a carriage return at its end is white space. -/
theorem Tail.Reads.ofChars_text_respelt (h : t.Reads src) :
    Fragment.ofChars (moved src t.offset) (trimEnd (t.chars.takeWhile fun c => !endsText c)) =
      (Fragment.ofChars t.offset (trimEnd (t.chars.takeWhile fun c => !endsText c))).map
        (moved src) := by
  obtain ⟨white, -, hcut⟩ := exists_trimEnd_append (t.chars.takeWhile fun c => !endsText c)
  have hbegins : trimEnd (t.chars.takeWhile fun c => !endsText c) <+:
      t.chars.takeWhile fun c => !endsText c := ⟨white, hcut.symm⟩
  have hfeed := mt (hbegins.mem (a := '\n')) (newline_not_mem_takeWhile_endsText t.chars)
  rw [h.ofChars_respelt hfeed (hbegins.trans (List.takeWhile_prefix _)), Fragment.respelt_eq_map]
  rw [Fragment.ofChars, String.toList_ofList]
  exact hfeed

theorem headD_respelt (hstart : Stops isWhiteSpace t.chars) (d : Char) :
    (t.respelt src).chars.headD d = t.chars.headD d := by
  show (crlf t.chars).headD d = _
  cases hchars : t.chars with
  | nil => rfl
  | cons c cs =>
    rw [hchars] at hstart
    have hc : c ≠ '\n' := by
      rintro rfl
      exact absurd (stops_cons.1 hstart) (by decide)
    rw [crlf_cons hc]
    rfl

/-- The step that reads text mirrors itself. -/
theorem stepText_mirrors (h : t.Reads src) (hstart : Stops isWhiteSpace t.chars) :
    (stepText around nodes t).Mirrors o src
      (stepText (around.map (Frame.respelt src)) (Template.respelt src nodes)
        (t.respelt src)) := by
  obtain ⟨pad, offset, ds, hpad, hno, htake, hrest, hrest'⟩ := h.exists_skipText_respelt
  simp only [stepText, htake, trimEnd_append_run hpad, headD_respelt hstart, hrest']
  split
  · exact Step.mirrors_refuse t.offset _
  · refine ⟨h.skipWhile _, [], ⟨offset + byteLength pad, ds⟩, ?_, ?_⟩
    · rw [addNode, Stage.respelt, Template.respelt_append]
      show Step.advance []
        (.body _ (_ ++ [.text (Fragment.ofChars (moved src t.offset) _)]) _) _ = _
      rw [h.ofChars_text_respelt]
      rfl
    · rw [hrest, Stage.respelt, step_body_white hpad, hno, Bool.or_false]

/-- Whatever node a step reads, it mirrors itself. -/
theorem stepNode_mirrors (h : t.Reads src) (hsrc : Plain src)
    (hstart : Stops isWhiteSpace t.chars) :
    (stepNode o around nodes lineStart t).Mirrors o src
      (stepNode o (around.map (Frame.respelt src)) (Template.respelt src nodes) lineStart
        (t.respelt src)) := by
  rw [stepNode, stepNode, Tail.startsWith_respelt (by decide) (by decide),
    Tail.startsWith_respelt (by decide) (by decide),
    Tail.startsWith_respelt (by decide) (by decide)]
  split
  · exact stepFallthrough_mirrors h
  · split
    · exact stepSwitch_mirrors h hsrc
    · split
      · exact stepOutput_mirrors h hsrc
      · exact stepText_mirrors h hstart

/-- A step within a body mirrors itself. -/
theorem stepBody_mirrors (h : t.Reads src) (hsrc : Plain src) :
    (stepBody o around nodes lineStart t).Mirrors o src
      (stepBody o (around.map (Frame.respelt src)) (Template.respelt src nodes) lineStart
        (t.respelt src)) := by
  have hskip : t.skipWhiteSpace.Reads src := h.skipWhile isWhiteSpace
  have hstart : Stops isWhiteSpace t.skipWhiteSpace.chars := stops_dropWhile isWhiteSpace t.chars
  -- a carriage return more is white space as well, and the line feeds stay
  have hline : ((t.respelt src).chars.takeWhile isWhiteSpace).contains '\n' =
      (t.chars.takeWhile isWhiteSpace).contains '\n' := by
    show ((crlf t.chars).takeWhile isWhiteSpace).contains '\n' = _
    rw [takeWhile_crlf isWhiteSpace_return, contains_newline_crlf]
  simp only [stepBody, hline, h.skipWhiteSpace_respelt]
  cases around with
  | nil =>
    simp only [List.map_nil, Tail.isEmpty_respelt]
    split
    · rfl
    · exact stepNode_mirrors hskip hsrc hstart
  | cons frame outer =>
    have hclose : ∀ block : Block,
        (closeBlock o outer block [] t.skipWhiteSpace).Mirrors o src
          (closeBlock o (outer.map (Frame.respelt src)) (block.respelt src) []
            (t.skipWhiteSpace.respelt src)) :=
      fun _ => closeBlock_mirrors [] [] hskip
    have hempty : List.isEmpty (Template.respelt src nodes) = nodes.isEmpty := by
      rw [Template.respelt, Template.isEmpty_map, Template.isEmpty_respell]
    simp only [List.map_cons]
    rw [Tail.startsWith_respelt (by decide) (by decide), Tail.startsClause_respelt,
      Tail.isEmpty_respelt, hempty]
    split
    · exact closeClause_mirrors frame nodes hclose
    · split
      · exact closeClause_mirrors frame nodes fun _ => openClause_mirrors hskip hsrc
      · split
        · split
          · exact Step.mirrors_refuse _ _
          · exact closeClause_mirrors frame nodes hclose
        · exact stepNode_mirrors hskip hsrc hstart

/-- A step in the other spelling is the same step. -/
theorem step_mirrors (stage : Stage) (h : t.Reads src) (hsrc : Plain src) :
    (step o stage t).Mirrors o src (step o (stage.respelt src) (t.respelt src)) := by
  cases stage with
  | body around nodes lineStart => exact stepBody_mirrors h hsrc
  | block around block =>
    have hskip : t.skipWhiteSpace.Reads src := h.skipWhile isWhiteSpace
    simp only [step, stepBlock, Stage.respelt, h.skipWhiteSpace_respelt, Tail.startsClause_respelt]
    split
    · exact openClause_mirrors hskip hsrc
    · exact closeBlock_mirrors _ _ hskip

/-! ## Runs -/

/-- A parse of the other spelling comes to the same. -/
theorem run_respelt (hsrc : Plain src) (stage : Stage) (t : Tail) :
    t.Reads src → (run o (stage.respelt src) (t.respelt src)).result =
      match (run o stage t).result with
      | .ok nodes => .ok (Template.respelt src nodes)
      | .error failure => .error (failure.map (moved src)) := by
  fun_induction run o stage t with
  | case1 stage t events stage' rest hstep hlt ih =>
    intro ht
    have hmirrors : (step o stage t).Mirrors o src _ := step_mirrors stage ht hsrc
    rw [hstep] at hmirrors
    obtain ⟨hrest, events', rest', hstep', hnext⟩ := hmirrors
    have hrun : run o (stage'.respelt src) rest' =
        run o (stage'.respelt src) (rest.respelt src) := by
      rw [run_eq, hnext, ← run_eq]
    rw [run_eq, hstep']
    show (run o (stage'.respelt src) rest').result = _
    rw [hrun]
    exact ih hrest
  | case2 stage t nodes hstep =>
    intro ht
    have hmirrors : (step o stage t).Mirrors o src _ := step_mirrors stage ht hsrc
    rw [hstep] at hmirrors
    rw [run_eq, show step o (stage.respelt src) (t.respelt src) = _ from hmirrors]
  | case3 stage t events failure hstep =>
    intro ht
    have hmirrors : (step o stage t).Mirrors o src _ := step_mirrors stage ht hsrc
    rw [hstep] at hmirrors
    obtain ⟨events', hstep'⟩ := hmirrors
    rw [run_eq, hstep']

/-- A source is read in the other spelling to the same nodes, or to the same failure. -/
theorem readSource_crlf (o : Options) (hsrc : Plain src) :
    (readSource o (crlf src)).result =
      match (readSource o src).result with
      | .ok nodes => .ok (Template.respelt src nodes)
      | .error failure => .error (failure.map (moved src)) := by
  rw [readSource, ← Tail.respelt_start]
  exact run_respelt hsrc .initial (.start src) (Tail.reads_start src)

/-- A source without carriage returns and without backslashes in front of line feeds may be given
the other line ends. Where it can be read, the tree is the same, with the expressions spelled as
their source is; where it cannot, the failure has the same cause; and every place keeps its line and
its column. -/
theorem parse_crlf (source : String) (o : Options) (hreturn : '\r' ∉ source.toList)
    (hescape : ¬['\\', '\n'] <:+: source.toList) :
    (∀ t, parse source o = .ok t → ∃ t', parse (toCrlf source) o = .ok t' ∧
      Template.map Position.coordinates t' =
        Template.map Position.coordinates (Template.respell toCrlf t)) ∧
    ∀ failure, parse source o = .error failure →
      ∃ failure', parse (toCrlf source) o = .error failure' ∧
        failure'.map Position.coordinates = failure.map Position.coordinates := by
  have hread := readSource_crlf o ⟨hreturn, hescape⟩
  have hplace : Position.coordinates ∘ (Source.ofString (toCrlf source)).positionAt ∘
      moved source.toList = Position.coordinates ∘ (Source.ofString source).positionAt :=
    funext (Source.coordinates_positionAt_moved source)
  have hchars : (toCrlf source).toList = crlf source.toList := String.toList_ofList
  simp only [parse, parseWithEvents, Outcome.map, hchars, hread]
  cases (readSource o source.toList).result with
  | ok nodes =>
    constructor
    · intro t ht
      cases ht
      refine ⟨_, rfl, ?_⟩
      rw [Template.respelt, Template.map_map, Template.map_map, Template.respell_map,
        Template.map_map, Function.comp_assoc, hplace]
    · intro failure h
      cases h
  | error failure =>
    constructor
    · intro t h
      cases h
    · intro failure' h
      cases h
      refine ⟨_, rfl, ?_⟩
      rw [Failure.map_map, Failure.map_map, Failure.map_map, Function.comp_assoc, hplace]

/-- A raw literal and a bracket over two lines, and a brace that is never closed. -/
theorem parse_crlf_lines :
    (∃ t, parse ("switch \x60é\r\n\x60 \x7b\r\n case 1:\r\n a \r\n" ++
        "\x7b f(\r\n) \x7d\r\n\x7d") = .ok t ∧
      Template.map Position.coordinates t = [
        .switch ⟨"\x60é\r\n\x60", (1, 8), (2, 2)⟩
          [⟨.case ⟨"1", (3, 7), (3, 8)⟩, [
            .text ⟨"a", (4, 2), (4, 3)⟩, .output ⟨"f(\r\n)", (5, 3), (6, 2)⟩]⟩]
          ⟨(1, 1), (7, 2)⟩]) ∧
    ∃ failure, parse "a\r\n\x7b f(\r\n \x7d" = .error failure ∧
      failure.map Position.coordinates =
        ⟨(2, 1), .invalidExpression .output .bracedExpression⟩ := by
  have hread : parse "switch \x60é\n\x60 \x7b\n case 1:\n a \n\x7b f(\n) \x7d\n\x7d" = .ok [
      .switch ⟨"\x60é\n\x60", ⟨⟨7, 1, 8⟩, ⟨12, 2, 2⟩⟩⟩
        [⟨.case ⟨"1", ⟨⟨21, 3, 7⟩, ⟨22, 3, 8⟩⟩⟩, [
          .text ⟨"a", ⟨⟨25, 4, 2⟩, ⟨26, 4, 3⟩⟩⟩,
          .output ⟨"f(\n)", ⟨⟨30, 5, 3⟩, ⟨34, 6, 2⟩⟩⟩]⟩]
        ⟨⟨0, 1, 1⟩, ⟨38, 7, 2⟩⟩] := by
    decide +kernel
  have hfails : parse "a\n\x7b f(\n \x7d" =
      .error ⟨⟨2, 2, 1⟩, .invalidExpression .output .bracedExpression⟩ := by
    decide +kernel
  exact ⟨(parse_crlf "switch \x60é\n\x60 \x7b\n case 1:\n a \n\x7b f(\n) \x7d\n\x7d" {}
      (by decide +kernel) (by decide +kernel)).1 _ hread,
    (parse_crlf "a\n\x7b f(\n \x7d" {} (by decide +kernel)
      (by decide +kernel)).2 _ hfails⟩

end SwitchMarkup

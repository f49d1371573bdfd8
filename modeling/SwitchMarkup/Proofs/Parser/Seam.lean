import SwitchMarkup.Proofs.Grammar.Run

/-!
# Reading on behind a line feed

No construct reaches over the end of its line unless it is inside of brackets, and those have to be
closed. So where a text that ends in a line feed is read to its end, a longer text that begins with
it is read by the same steps up to there, and the parse goes on at the start of a line with the
nodes of the first part. One step is taken on with more text behind it, and then a whole run. Main
statement: `run_extend`.
-/

namespace SwitchMarkup

open Items

variable {p : Char → Bool} {c : Char} {word lead cs ds rest : List Char} {context : Context}
  {t u : Tail} {x : Extraction} {expression : Fragment (List Char)} {o : Options}
  {around : List Frame} {nodes : List (Node Nat)} {block : Block} {lineStart : Bool} {stage : Stage}

/-! ## Texts that end in a line feed -/

/-- The last character of the text is a line feed. -/
def EndsInFeed (cs : List Char) : Prop := cs.getLast? = some '\n'

theorem EndsInFeed.mem (h : EndsInFeed cs) : '\n' ∈ cs := List.mem_of_getLast? h

theorem EndsInFeed.ne_nil (h : EndsInFeed cs) : cs ≠ [] := List.ne_nil_of_mem h.mem

/-- What is left of a text that ends in a line feed ends in one. -/
theorem EndsInFeed.of_suffix (h : EndsInFeed cs) (hrest : rest <:+ cs) (hne : rest ≠ []) :
    EndsInFeed rest := by
  obtain ⟨lead, rfl⟩ := hrest
  rw [EndsInFeed, List.getLast?_append, List.getLast?_eq_some_getLast hne] at h
  rw [EndsInFeed, List.getLast?_eq_some_getLast hne]
  exact h

theorem EndsInFeed.of_cons (h : EndsInFeed (c :: rest)) (hc : c ≠ '\n') : EndsInFeed rest := by
  refine h.of_suffix (List.suffix_cons c rest) ?_
  rintro rfl
  exact hc (Option.some.inj h)

theorem EndsInFeed.of_append_cons (h : EndsInFeed (lead ++ c :: rest)) (hc : c ≠ '\n') :
    EndsInFeed rest :=
  (h.of_suffix (List.suffix_append lead _) (List.cons_ne_nil c rest)).of_cons hc

theorem EndsInFeed.dropWhile (h : EndsInFeed cs) (hp : p '\n' = false) :
    EndsInFeed (cs.dropWhile p) := by
  refine h.of_suffix (List.dropWhile_suffix p) fun hnil => ?_
  cases hp.symm.trans (dropWhile_eq_nil_iff.1 hnil '\n' h.mem)

/-- A word with no line feed before its last character does not begin in the text and end behind
it. -/
theorem EndsInFeed.prefix_append_iff (h : EndsInFeed cs) (hword : '\n' ∉ word.dropLast) :
    word <+: cs ++ ds ↔ word <+: cs := by
  refine ⟨fun hbegins => ?_, fun hbegins => hbegins.trans (List.prefix_append cs ds)⟩
  rcases Nat.lt_or_ge cs.length word.length with hlt | hle
  · -- The text would be the beginning of the word.
    have hcs : cs <+: word :=
      List.prefix_of_prefix_length_le (List.prefix_append cs ds) hbegins (Nat.le_of_lt hlt)
    have hdrop : cs <+: word.dropLast := by
      rw [List.dropLast_eq_take]
      exact List.prefix_take_iff.2 ⟨hcs, by omega⟩
    exact absurd (hdrop.mem h.mem) hword
  · exact List.prefix_of_prefix_length_le hbegins (List.prefix_append cs ds) hle

theorem Stops.append (h : Stops p cs) (hne : cs ≠ []) (ds : List Char) : Stops p (cs ++ ds) := by
  obtain ⟨c, cs, rfl⟩ := List.exists_cons_of_ne_nil hne
  exact stops_cons.2 (stops_cons.1 h)

/-! ## Tails -/

/-- The tail with more text behind it. -/
def Tail.extend (ds : List Char) (t : Tail) : Tail := ⟨t.offset, t.chars ++ ds⟩

/-- Whether a word comes next is seen from the text in front of its last line feed. -/
theorem Tail.startsWith_extend (h : EndsInFeed t.chars) (hword : '\n' ∉ word.dropLast) :
    (t.extend ds).startsWith word = t.startsWith word :=
  Bool.eq_iff_iff.2 (Tail.startsWith_iff.trans
    ((h.prefix_append_iff hword).trans Tail.startsWith_iff.symm))

theorem Tail.startsClause_extend (h : EndsInFeed t.chars) :
    (t.extend ds).startsClause = t.startsClause := by
  rw [Tail.startsClause, Tail.startsClause, Tail.startsWith_extend h (by decide),
    Tail.startsWith_extend h (by decide)]

/-- A word is taken as before if more text follows. -/
theorem Tail.drop?_extend (h : EndsInFeed t.chars) (hword : '\n' ∉ word.dropLast) :
    (t.extend ds).drop? word = (t.drop? word).map (Tail.extend ds) := by
  rw [Tail.drop?, Tail.drop?, Tail.startsWith_extend h hword]
  split
  next hstarts =>
    obtain ⟨rest, hrest⟩ := Tail.startsWith_iff.1 hstarts
    rw [Option.map_some, Tail.extend, Tail.extend, ← hrest, List.append_assoc, List.drop_left,
      List.drop_left]
  next => rfl

theorem Tail.isEmpty_extend (ds : List Char) (h : EndsInFeed t.chars) :
    (t.extend ds).isEmpty = false ∧ t.isEmpty = false := by
  have hne : t.chars ≠ [] := h.ne_nil
  have hne' : t.chars ++ ds ≠ [] := List.append_ne_nil_of_left_ne_nil hne ds
  exact ⟨List.isEmpty_eq_false_iff.2 hne', List.isEmpty_eq_false_iff.2 hne⟩

/-- What stops within a text stops there if more follows. -/
theorem takeWhile_extend (ds : List Char) (h : cs.dropWhile p ≠ []) :
    (cs ++ ds).takeWhile p = cs.takeWhile p ∧ (cs ++ ds).dropWhile p = cs.dropWhile p ++ ds := by
  have hcut := List.takeWhile_append_dropWhile (p := p) (l := cs)
  have hrun := isRun_takeWhile p cs
  have hstop := (stops_dropWhile p cs).append h ds
  generalize cs.takeWhile p = run at hcut hrun ⊢
  generalize cs.dropWhile p = rest at hcut hstop ⊢
  rw [← hcut, List.append_assoc]
  exact ⟨takeWhile_run hrun hstop, dropWhile_run hrun hstop⟩

theorem Tail.skipWhile_extend (h : t.chars.dropWhile p ≠ []) :
    (t.extend ds).skipWhile p = (t.skipWhile p).extend ds := by
  obtain ⟨htake, hdrop⟩ := takeWhile_extend ds h
  rw [Tail.skipWhile, Tail.skipWhile, Tail.extend, Tail.extend, htake, hdrop]

theorem Tail.skipBlanks_extend (ds : List Char) (h : EndsInFeed t.chars) :
    (t.extend ds).skipBlanks = t.skipBlanks.extend ds ∧ EndsInFeed t.skipBlanks.chars := by
  have hrest : EndsInFeed t.skipBlanks.chars := h.dropWhile rfl
  exact ⟨Tail.skipWhile_extend hrest.ne_nil, hrest⟩

theorem Tail.dropLineEnd?_extend (h : EndsInFeed t.chars) :
    (t.extend ds).dropLineEnd? = t.dropLineEnd?.map (Tail.extend ds) := by
  rw [Tail.dropLineEnd?, Tail.dropLineEnd?, Tail.drop?_extend h (by decide),
    Tail.drop?_extend h (by decide), Option.map_or]

theorem Tail.skipHeaderEnd_extend (h : EndsInFeed t.chars) :
    (t.extend ds).skipHeaderEnd = t.skipHeaderEnd.extend ds := by
  obtain ⟨hskip, hblanks⟩ := Tail.skipBlanks_extend ds h
  rw [Tail.skipHeaderEnd, Tail.skipHeaderEnd, hskip, Tail.dropLineEnd?_extend hblanks]
  cases t.skipBlanks.dropLineEnd? with
  | none => rfl
  | some u => rfl

/-- The text behind the brace that opens a block ends in the line feed as well. -/
theorem Tail.dropBlockOpening?_extend (h : EndsInFeed t.chars) :
    (t.extend ds).dropBlockOpening? = t.dropBlockOpening?.map (Tail.extend ds) := by
  obtain ⟨hskip, hblanks⟩ := Tail.skipBlanks_extend ds h
  rw [Tail.dropBlockOpening?, Tail.dropBlockOpening?, hskip,
    Tail.drop?_extend hblanks (by decide)]
  cases hdrop : t.skipBlanks.drop? ['\x7b'] with
  | none => rfl
  | some u =>
    have hchars := (Tail.drop?_eq_some hdrop).1
    rw [hchars] at hblanks
    obtain ⟨hskip', hblanks'⟩ :=
      Tail.skipBlanks_extend ds (hblanks.of_cons (c := '\x7b') (by decide))
    rw [Option.map_some, Option.bind_some, Option.bind_some, hskip',
      Tail.dropLineEnd?_extend hblanks']

/-! ## Headers -/

theorem placeIn_append (total : Nat) (cs ds : List Char) :
    placeIn (total + byteLength ds) (cs ++ ds) = placeIn total cs := by
  rw [placeIn, placeIn, byteLength_append]
  omega

theorem stuck_tag_of_end (h : ['\x7b'] <+: rest ∨ EndsLine rest) (hne : rest ≠ []) :
    Stuck .tag rest := by
  obtain ⟨c, rest, rfl⟩ := List.exists_cons_of_ne_nil hne
  rcases h with hbrace | hline
  · obtain rfl := (List.cons_prefix_cons.1 hbrace).1
    exact stuck_tag_open
  · rcases (by simpa [isLineBreak] using hline c rfl : c = '\n' ∨ c = '\r') with rfl | rfl
    · exact stuck_cons_iff.2 rfl
    · exact stuck_cons_iff.2 rfl

/-- A header with text behind it stays one when there is more. -/
theorem IsHeader.append (h : IsHeader context cs expression rest) (hne : rest ≠ [])
    (ds : List Char) :
    IsHeader context (cs ++ ds) (expression.map (· ++ ds)) (rest ++ ds) := by
  have hend : ∀ {rest : List Char}, EndsLine rest → rest ≠ [] → EndsLine (rest ++ ds) := by
    intro rest hline hne
    obtain ⟨c, rest, rfl⟩ := List.exists_cons_of_ne_nil hne
    rintro d ⟨rfl⟩
    exact hline c rfl
  cases h with
  | switch hgap hblank hrun hlongest hstop =>
    have hstop' : ['\x7b'] <+: rest ++ ds ∨ EndsLine (rest ++ ds) :=
      hstop.imp (·.trans (List.prefix_append rest ds)) (hend · hne)
    have hstuck := stuck_tag_of_end hstop' (List.append_ne_nil_of_left_ne_nil hne ds)
    rw [Fragment.ofRun_map_append]
    simp only [List.append_assoc]
    exact .switch hgap hblank hrun (isItems_maximal hrun.covers hstuck) hstop'
  | case hgap hblank hrun hstart hitems =>
    rw [Fragment.ofRun_map_append]
    simp only [List.append_assoc, List.cons_append]
    exact .case hgap hblank hrun hstart hitems
  | default hblank =>
    rw [Fragment.ofRun_map_append]
    simp only [List.append_assoc, List.cons_append]
    exact .default hblank
  | fallthrough hblank hline =>
    rw [Fragment.ofRun_map_append]
    simp only [List.append_assoc]
    exact .fallthrough hblank (hend hline hne)
  | output hrun hvisible =>
    rw [Fragment.ofRun_map_append]
    simp only [List.append_assoc, List.cons_append]
    exact .output hrun hvisible

/-- Behind a header there is an end of the text. -/
theorem IsHeader.suffix (h : IsHeader context cs expression rest) : rest <:+ cs := by
  cases h with
  | @switch gap run rest => exact ⟨Keyword.switch ++ (gap ++ run), by simp⟩
  | @case gap run rest => exact ⟨Keyword.case ++ (gap ++ (run ++ [':'])), by simp⟩
  | @default gap rest => exact ⟨Keyword.default ++ (gap ++ [':']), by simp⟩
  | @fallthrough gap rest => exact ⟨Keyword.fallthrough ++ gap, by simp⟩
  | @output run rest => exact ⟨'\x7b' :: (run ++ ['\x7d']), by simp⟩

/-- A header other than that of a switch ends with a character that is no line feed. -/
theorem IsHeader.endsInFeed (h : IsHeader context cs expression rest) (hcontext : context ≠ .switch)
    (hcs : EndsInFeed cs) : EndsInFeed rest := by
  cases h with
  | switch => exact absurd rfl hcontext
  | @case gap run rest =>
    rw [← List.append_assoc, ← List.append_assoc] at hcs
    exact hcs.of_append_cons (by decide)
  | @default gap rest =>
    rw [← List.append_assoc] at hcs
    exact hcs.of_append_cons (by decide)
  | @fallthrough gap rest hblank =>
    refine hcs.of_suffix ⟨Keyword.fallthrough ++ gap, List.append_assoc ..⟩ ?_
    rintro rfl
    rw [List.append_nil] at hcs
    rcases List.mem_append.1 hcs.mem with hword | hgap
    · exact absurd hword (by decide)
    · exact absurd (hblank '\n' hgap) (by decide)
  | @output run rest =>
    rw [← List.cons_append] at hcs
    exact hcs.of_append_cons (by decide)

/-- A header is extracted as before if it does not take all of the text. -/
theorem extract_extend (context : Context) (ds : List Char) (h : extract context t = .ok x)
    (hne : x.rest.chars ≠ []) :
    extract context (t.extend ds) = .ok ⟨x.expression, x.rest.extend ds⟩ := by
  have ht : t.Fits (t.offset + byteLength t.chars) := rfl
  have hextend : ∀ {u : Tail} {total : Nat}, u.Fits total →
      (u.extend ds).Fits (total + byteLength ds) := by
    rintro u total rfl
    rw [Tail.Fits, Tail.extend, byteLength_append, Nat.add_assoc]
  obtain ⟨expression, hheader, hexpression, hfits⟩ := exists_isHeader ht h
  obtain ⟨x', hx', hexpression', hrest', hfits'⟩ :=
    (hheader.append hne ds).exists_extract (hextend ht)
  have hplace : expression.map (placeIn (t.offset + byteLength t.chars)) =
      (expression.map (· ++ ds)).map
        (placeIn (t.offset + byteLength t.chars + byteLength ds)) := by
    simp only [Fragment.map, Span.map, placeIn_append]
  rw [hx', hexpression, hplace, ← hexpression', ← hfits'.eq (hextend hfits) hrest']

/-- Only the header of a `switch` can take the line feed at the end. -/
theorem extract_endsInFeed (context : Context) (h : extract context t = .ok x)
    (hcontext : context ≠ .switch) (ht : EndsInFeed t.chars) : EndsInFeed x.rest.chars := by
  have hfits : t.Fits (t.offset + byteLength t.chars) := rfl
  obtain ⟨expression, hheader, -⟩ := exists_isHeader hfits h
  exact hheader.endsInFeed hcontext ht

/-! ## Steps -/

/-- Where a parse can stand behind a line feed: in a text that ends in one, or at the end of the
source and then not behind a node of the top level. -/
def Seam (stage : Stage) (cs : List Char) : Prop :=
  EndsInFeed cs ∨ cs = [] ∧ ∀ nodes, stage ≠ .body [] nodes false

/-- The second step is the first one with more text behind it. The first one does not end the parse,
and if it goes on it does so at a seam. -/
def Step.Extends (ds : List Char) : Step → Step → Prop
  | .advance events stage rest, s' =>
    s' = .advance events stage (rest.extend ds) ∧ Seam stage rest.chars
  | .finish _, _ => False
  | .fail _ _, _ => True

/-- What is left of a text that ends in a line feed is a seam, unless the parse stands behind a node
of the top level. -/
theorem seam_of_suffix (h : EndsInFeed cs) (hrest : rest <:+ cs)
    (hstage : ∀ nodes, stage ≠ .body [] nodes false) : Seam stage rest := by
  by_cases hne : rest = []
  · exact .inr ⟨hne, hstage⟩
  · exact .inl (h.of_suffix hrest hne)

theorem addNode_extends (node : Node Nat) (h : EndsInFeed t.chars) :
    (addNode around nodes node t).Extends ds (addNode around nodes node (t.extend ds)) :=
  ⟨rfl, .inl h⟩

theorem openClause_extends (h : EndsInFeed t.chars) :
    (openClause around block t).Extends ds (openClause around block (t.extend ds)) := by
  cases hx : extractCase t with
  | error failure =>
    rw [openClause, hx]
    trivial
  | ok x =>
    have hrest := extract_endsInFeed .case hx nofun h
    have hx' : extractCase (t.extend ds) = _ := extract_extend .case ds hx hrest.ne_nil
    rw [openClause, openClause, hx, hx', Tail.startsWith_extend h (by decide)]
    refine ⟨?_, seam_of_suffix hrest (Tail.skipHeaderEnd_suffix x.rest) fun nodes h => ?_⟩
    · simp only [Tail.skipHeaderEnd_extend hrest]
    · cases h

theorem closeBlock_extends (events : List Event) (h : EndsInFeed t.chars) :
    (closeBlock o around block events t).Extends ds
      (closeBlock o around block events (t.extend ds)) := by
  rw [closeBlock, closeBlock, Tail.drop?_extend h (by decide)]
  cases o.enforced (finalFallthrough? block.clauses) with
  | some place => trivial
  | none =>
    cases hdrop : t.drop? ['\x7d'] with
    | none => trivial
    | some u =>
      rw [(Tail.drop?_eq_some hdrop).1] at h
      exact ⟨rfl, .inl (h.of_cons (by decide))⟩

/-- A clause ends as before if the step behind it goes as before. -/
theorem closeClause_extends (frame : Frame) (children : List (Node Nat)) {next next' : Block → Step}
    (h : ∀ block, (next block).Extends ds (next' block)) :
    (closeClause o frame children next).Extends ds (closeClause o frame children next') := by
  rw [closeClause, closeClause]
  cases o.enforced (earlyFallthrough? children) with
  | some place => trivial
  | none => exact h _

theorem stepFallthrough_extends (h : EndsInFeed t.chars) :
    (stepFallthrough around nodes t).Extends ds (stepFallthrough around nodes (t.extend ds)) := by
  cases hx : extractFallthrough t with
  | error failure =>
    rw [stepFallthrough, hx]
    trivial
  | ok x =>
    have hrest := extract_endsInFeed .fallthrough hx nofun h
    have hx' : extractFallthrough (t.extend ds) = _ :=
      extract_extend .fallthrough ds hx hrest.ne_nil
    rw [stepFallthrough, stepFallthrough, hx, hx']
    show Step.Extends ds (if around.isEmpty then _ else _) (if around.isEmpty then _ else _)
    split
    · trivial
    · exact addNode_extends _ hrest

theorem stepSwitch_extends (h : EndsInFeed t.chars) :
    (stepSwitch o around nodes t).Extends ds (stepSwitch o around nodes (t.extend ds)) := by
  cases hx : extractSwitch t with
  | error failure =>
    rw [stepSwitch, hx]
    trivial
  | ok x =>
    cases hopen : x.rest.dropBlockOpening? with
    | none =>
      rw [stepSwitch, hx]
      simp only [hopen]
      trivial
    | some u =>
      have hfits : t.Fits (t.offset + byteLength t.chars) := rfl
      obtain ⟨tag, hheader, -⟩ := exists_isHeader_switch hfits hx
      have hne : x.rest.chars ≠ [] := by
        intro hnil
        have hblanks : x.rest.skipBlanks.chars = [] := by
          rw [Tail.skipBlanks, Tail.chars_skipWhile, hnil]
          rfl
        obtain ⟨v, hv, -⟩ := Option.bind_eq_some_iff.1 hopen
        have hchars := (Tail.drop?_eq_some hv).1
        rw [hblanks] at hchars
        cases hchars
      have hrest := h.of_suffix hheader.suffix hne
      have hx' : extractSwitch (t.extend ds) = _ := extract_extend .switch ds hx hne
      rw [stepSwitch, stepSwitch, hx, hx']
      simp only [Tail.dropBlockOpening?_extend hrest, hopen, Option.map_some]
      cases o.limitReached? around.length with
      | some limit => trivial
      | none =>
        refine ⟨rfl, seam_of_suffix hrest (Tail.dropBlockOpening?_suffix hopen) fun nodes h => ?_⟩
        cases h

theorem stepOutput_extends (h : EndsInFeed t.chars) :
    (stepOutput around nodes t).Extends ds (stepOutput around nodes (t.extend ds)) := by
  cases hx : extractOutput t with
  | error failure =>
    rw [stepOutput, hx]
    trivial
  | ok x =>
    have hrest := extract_endsInFeed .output hx nofun h
    have hx' : extractOutput (t.extend ds) = _ := extract_extend .output ds hx hrest.ne_nil
    rw [stepOutput, stepOutput, hx, hx']
    exact addNode_extends _ hrest

/-- Text is read as before if more text follows. -/
theorem stepText_extends (h : EndsInFeed t.chars) :
    (stepText around nodes t).Extends ds (stepText around nodes (t.extend ds)) := by
  have hrest : EndsInFeed (t.chars.dropWhile fun c => !endsText c) := h.dropWhile rfl
  have htake : (t.extend ds).chars.takeWhile (fun c => !endsText c) =
      t.chars.takeWhile fun c => !endsText c :=
    (takeWhile_extend ds hrest.ne_nil).1
  simp only [stepText, htake, Tail.skipWhile_extend hrest.ne_nil]
  split
  · trivial
  · exact addNode_extends _ hrest

/-- Whatever node a step reads, it does as before if more text follows. -/
theorem stepNode_extends (around : List Frame) (h : EndsInFeed t.chars) :
    (stepNode o around nodes lineStart t).Extends ds
      (stepNode o around nodes lineStart (t.extend ds)) := by
  rw [stepNode, stepNode, Tail.startsWith_extend h (by decide),
    Tail.startsWith_extend h (by decide), Tail.startsWith_extend h (by decide)]
  split
  · exact stepFallthrough_extends h
  · split
    · exact stepSwitch_extends h
    · split
      · exact stepOutput_extends h
      · exact stepText_extends h

/-- A step that reads more than white space is the same with more text behind it. -/
theorem step_extends (h : EndsInFeed t.chars) (hvisible : t.chars.dropWhile isWhiteSpace ≠ []) :
    (step o stage t).Extends ds (step o stage (t.extend ds)) := by
  have hskip : (t.extend ds).skipWhiteSpace = t.skipWhiteSpace.extend ds :=
    Tail.skipWhile_extend hvisible
  have hgap : (t.extend ds).chars.takeWhile isWhiteSpace = t.chars.takeWhile isWhiteSpace :=
    (takeWhile_extend ds hvisible).1
  have hrest : EndsInFeed t.skipWhiteSpace.chars :=
    h.of_suffix (List.dropWhile_suffix isWhiteSpace) hvisible
  obtain ⟨hempty', hempty⟩ := Tail.isEmpty_extend ds hrest
  cases stage with
  | block around block =>
    simp only [step, stepBlock, hskip]
    rw [Tail.startsClause_extend hrest]
    split
    · exact openClause_extends hrest
    · exact closeBlock_extends _ hrest
  | body around nodes lineStart =>
    simp only [step, stepBody, hskip, hgap, hempty', hempty]
    cases around with
    | nil => exact stepNode_extends [] hrest
    | cons frame outer =>
      simp only
      rw [Tail.startsWith_extend hrest (by decide), Tail.startsClause_extend hrest]
      split
      · exact closeClause_extends frame nodes fun _ => closeBlock_extends [] hrest
      · split
        · exact closeClause_extends frame nodes fun _ => openClause_extends hrest
        · exact stepNode_extends (frame :: outer) hrest

/-! ## White space at the end -/

/-- At the end of a source no block can be closed. -/
theorem closeBlock_eq_fail (events : List Event) (h : t.chars = []) :
    ∃ events' failure, closeBlock o around block events t = .fail events' failure := by
  have hdrop : t.drop? ['\x7d'] = none := by
    rw [Tail.drop?_eq_none_iff, h, List.prefix_nil]
    exact List.cons_ne_nil _ _
  rw [closeBlock, hdrop]
  cases o.enforced (finalFallthrough? block.clauses) with
  | some place => exact ⟨_, _, rfl⟩
  | none => exact ⟨_, _, rfl⟩

/-- A step from white space ends the parse: with the nodes of the top level, or with a failure where
a switch is open. -/
theorem step_of_white (o : Options) (stage : Stage) (h : t.chars.dropWhile isWhiteSpace = []) :
    (∃ nodes lineStart, stage = .body [] nodes lineStart ∧ step o stage t = .finish nodes) ∨
      ∃ events failure, step o stage t = .fail events failure := by
  have hchars : t.skipWhiteSpace.chars = [] := h
  have hempty : t.skipWhiteSpace.isEmpty = true := List.isEmpty_iff.2 h
  have hclause : t.skipWhiteSpace.startsClause = false := by
    rw [Bool.eq_false_iff, Ne, Tail.startsClause_iff, hchars]
    exact not_opensClause_nil
  cases stage with
  | block around block =>
    simp only [step, stepBlock, hclause, Bool.false_eq_true, if_false]
    exact .inr (closeBlock_eq_fail _ hchars)
  | body around nodes lineStart =>
    cases around with
    | nil =>
      refine .inl ⟨nodes, lineStart, rfl, ?_⟩
      simp only [step, stepBody, hempty, if_true]
    | cons frame outer =>
      have hcloses : t.skipWhiteSpace.startsWith ['\x7d'] = false := by
        rw [Tail.startsWith, hchars]
        rfl
      simp only [step, stepBody, hcloses, hclause, hempty, Bool.and_false, Bool.false_eq_true,
        if_false, if_true]
      split
      · exact .inr ⟨_, _, rfl⟩
      · rw [closeClause]
        cases o.enforced (earlyFallthrough? nodes) with
        | some place => exact .inr ⟨_, _, rfl⟩
        | none => exact .inr (closeBlock_eq_fail _ hchars)

/-- White space in front of a body counts only for the line break that it may hold. -/
theorem step_body_white (hcs : IsRun isWhiteSpace cs) (offset : Nat) (ds : List Char) :
    step o (.body around nodes lineStart) ⟨offset, cs ++ ds⟩ =
      step o (.body around nodes (lineStart || cs.contains '\n')) ⟨offset + byteLength cs, ds⟩ := by
  have htake : (cs ++ ds).takeWhile isWhiteSpace = cs ++ ds.takeWhile isWhiteSpace :=
    List.takeWhile_append_of_pos hcs
  have hdrop : (cs ++ ds).dropWhile isWhiteSpace = ds.dropWhile isWhiteSpace :=
    List.dropWhile_append_of_pos hcs
  simp only [step, stepBody, Tail.skipWhiteSpace, Tail.skipWhile, htake, hdrop, byteLength_append,
    List.contains_append, Bool.or_assoc, Nat.add_assoc]

/-! ## Runs -/

/-- At a seam of the top level, behind white space, the text that follows is read as from its
start. -/
theorem run_extend_white {total : Nat} (ht : t.Fits total)
    (hwhite : t.chars.dropWhile isWhiteSpace = []) (h : Seam (.body [] nodes lineStart) t.chars) :
    run o (.body [] nodes lineStart) (t.extend ds) = run o (.body [] nodes true) ⟨total, ds⟩ := by
  have hline : (lineStart || t.chars.contains '\n') = true := by
    rcases h with hfeed | ⟨-, hstage⟩
    · rw [List.contains_iff_mem.2 hfeed.mem, Bool.or_true]
    · cases lineStart with
      | true => rfl
      | false => exact absurd rfl (hstage nodes)
  rw [run_eq, Tail.extend, step_body_white (dropWhile_eq_nil_iff.1 hwhite), hline, ht, ← run_eq]

/-- A source that is read to its end from a seam is read by the same steps with more text behind
it, and from there the parse goes on at the start of a line. -/
theorem run_extend {total : Nat} (ds : List Char) (stage : Stage) (t : Tail) :
    ∀ {events final}, t.Fits total → Seam stage t.chars → run o stage t = ⟨events, .ok final⟩ →
      run o stage (t.extend ds) = (run o (.body [] final true) ⟨total, ds⟩).after events := by
  have hextends : ∀ {stage : Stage} {t : Tail}, Seam stage t.chars →
      t.chars.dropWhile isWhiteSpace ≠ [] →
      (step o stage t).Extends ds (step o stage (t.extend ds)) := by
    intro stage t hseam hvisible
    exact step_extends (hseam.resolve_right fun h => hvisible (by rw [h.1]; rfl)) hvisible
  fun_induction run o stage t with
  | case1 stage t events stage' rest hstep hlt ih =>
    intro reports final ht hseam hrun
    by_cases hwhite : t.chars.dropWhile isWhiteSpace = []
    -- from white space alone no step goes on
    · rcases step_of_white o stage hwhite with
        ⟨nodes, lineStart, -, hfinish⟩ | ⟨events, failure, hfail⟩
      · cases hfinish.symm.trans hstep
      · cases hfail.symm.trans hstep
    · obtain ⟨hstep', hseam'⟩ := hstep ▸ hextends hseam hwhite
      have hmeets : (step o stage t).Meets o total [] _ := step_meets ht
      rw [hstep] at hmeets
      cases hmore : run o stage' rest with
      | mk reports' result =>
        rw [hmore] at hrun
        cases hrun
        rw [run_eq, hstep']
        show (run o stage' (rest.extend ds)).after events = _
        rw [ih hmeets.1 hseam' hmore, Outcome.after_after]
  | case2 stage t nodes hstep =>
    intro reports final ht hseam hrun
    cases hrun
    rw [Outcome.after_nil]
    by_cases hwhite : t.chars.dropWhile isWhiteSpace = []
    · rcases step_of_white o stage hwhite with
        ⟨nodes, lineStart, rfl, hfinish⟩ | ⟨events, failure, hfail⟩
      · cases hfinish.symm.trans hstep
        exact run_extend_white ht hwhite hseam
      · cases hfail.symm.trans hstep
    · exact (hstep ▸ hextends hseam hwhite).elim
  | case3 stage t events failure hstep =>
    intro reports final ht hseam hrun
    cases hrun

end SwitchMarkup

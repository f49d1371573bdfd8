import SwitchMarkup.Proofs.Parser.Fallthroughs
import SwitchMarkup.Proofs.Parser.Spans
import SwitchMarkup.Proofs.Printer.Reprint

/-!
# Where the lines of a parsed template begin

Text is taken as far as it goes, to the next brace or the end of its line, and a word counts as a
keyword only at the start of a body or of a line. A template shows afterwards that this has been
so: a statement is the first node of its body or has a line feed in front of it, and text with the
word of a keyword in front stands behind a closing brace on the same line. In a derivation both come
from the white space between two nodes. Main statement: `parse_lined`.
-/

namespace SwitchMarkup

variable {π ρ : Type}

/-! ## Nodes side by side -/

/-- The position is the one in front of the end `rest` of the source. -/
def Position.InFrontOf (source : String) (place : Position) (rest : List Char) : Prop :=
  ∃ front, front ++ rest = source.toList ∧ place.index = byteLength front

/-- The node begins in front of `cs`, an expression with its opening brace. -/
def Node.BeginsAt (inFront : π → List Char → Prop) (cs : List Char) : Node π → Prop
  | .text content => inFront content.span.start cs
  | .output expression => ∃ white inner, cs = '\x7b' :: (white ++ inner) ∧
      IsRun isWhiteSpace white ∧ inFront expression.span.start inner
  | .fallthrough keyword => inFront keyword.span.start cs
  | .switch _ _ block => inFront block.start cs

/-- The node ends in front of `rest`, an expression with its closing brace. -/
def Node.EndsAt (inFront : π → List Char → Prop) (rest : List Char) : Node π → Prop
  | .text content => inFront content.span.stop rest
  | .output expression => ∃ white, IsRun isWhiteSpace white ∧
      inFront expression.span.stop (white ++ '\x7d' :: rest)
  | .fallthrough keyword => inFront keyword.span.stop rest
  | .switch _ _ block => inFront block.stop rest

/-- From the end of the one node to the beginning of the other there is only white space. -/
def Separates (inFront : π → List Char → Prop) (white : List Char) (node next : Node π) : Prop :=
  IsRun isWhiteSpace white ∧
    ∃ rest, node.EndsAt inFront (white ++ rest) ∧ next.BeginsAt inFront rest

/-- Whether a node is one of those that begin with a keyword. -/
def Node.isStatement : Node π → Bool
  | .fallthrough _ | .switch .. => true
  | .text _ | .output _ => false

/-- Whether a node is one of those that end with a closing brace. -/
def Node.isBraced : Node π → Bool
  | .output _ | .switch .. => true
  | .text _ | .fallthrough _ => false

/-- The text is trimmed, has no brace and no line feed in it, and goes as far as it can: on its line
only white space comes before the next brace or the end. -/
structure MaximalText (inFront : π → List Char → Prop) (content : Fragment π) : Prop where
  nonempty : content.value ≠ ""
  first_visible : ∀ c ∈ content.value.toList.head?, isWhiteSpace c = false
  last_visible : ∀ c ∈ content.value.toList.getLast?, isWhiteSpace c = false
  plain : ∀ c ∈ content.value.toList, c ≠ '\x7b' ∧ c ≠ '\x7d' ∧ c ≠ '\n'
  stands : ∃ white rest, inFront content.span.start (content.value.toList ++ (white ++ rest)) ∧
    inFront content.span.stop (white ++ rest) ∧ IsRun isWhiteSpace white ∧ '\n' ∉ white ∧
    ∀ c ∈ rest.head?, c = '\x7b' ∨ c = '\x7d' ∨ c = '\n'

/-- In the nodes of a body, of a clause or not, every text is maximal, every statement begins the
body or has a line feed between itself and the node before it, and every text that looks like a
keyword stands on one line with an expression or a switch before it. -/
structure Template.Lined (inFront : π → List Char → Prop) (inClause : Bool)
    (nodes : List (Node π)) : Prop where
  texts : ∀ content, .text content ∈ nodes → MaximalText inFront content
  statements : ∀ before next after, nodes = before ++ next :: after → next.isStatement = true →
    before = [] ∨ ∃ others node white, before = others ++ [node] ∧
      Separates inFront white node next ∧ '\n' ∈ white
  keywords : ∀ before content after, nodes = before ++ .text content :: after →
    LooksLikeKeyword inClause content.value →
    ∃ others node white, before = others ++ [node] ∧ node.isBraced = true ∧
      Separates inFront white node (.text content) ∧ '\n' ∉ white

/-! ## The ends of a node in a derivation -/

/-- A place that is given by the text behind it is in front of that text. -/
def IsEndOf (source place rest : List Char) : Prop := place = rest ∧ rest <:+ source

variable {o : Options} {depth : Nat} {lineStart : Bool} {source cs mid rest : List Char}
  {node next : Node (List Char)} {nodes before after : List (Node (List Char))}
  {content : Fragment (List Char)}

theorem IsEndOf.inFrontOf {source : String} {place : List Char}
    (h : IsEndOf source.toList place rest) :
    ((Source.ofString source).placeBefore place).InFrontOf source rest := by
  obtain ⟨rfl, front, hfront⟩ := h
  exact ⟨front, hfront, Source.index_placeBefore front place hfront⟩

/-- Behind text, up to where it was read to, stands white space of its line. -/
theorem ReadsText.exists_pad (h : ReadsText cs content rest) :
    ∃ pad, IsRun isWhiteSpace pad ∧ '\n' ∉ pad ∧ content.span.stop = pad ++ rest := by
  obtain @⟨run, rest, -, -, hrun, -⟩ := h
  obtain ⟨lead, pad, -, hpad, hcut, hspan⟩ := Fragment.exists_span_ofRun run rest
  rw [hcut, isRun_append, isRun_append] at hrun
  obtain ⟨-, -, hplain⟩ := hrun
  exact ⟨pad, hpad, fun hmem => absurd (hplain _ hmem) (by decide), congrArg Span.stop hspan⟩

theorem ReadsText.stops_rest (h : ReadsText cs content rest) :
    Stops (fun c => !endsText c) rest := by
  obtain @⟨run, rest, -, -, -, hrest⟩ := h
  exact hrest

/-- A text that is read is maximal. -/
theorem ReadsText.maximal (h : ReadsText cs content rest) (hsource : cs <:+ source) :
    MaximalText (IsEndOf source) content := by
  obtain ⟨htrimmed, hnonempty, hplain⟩ := h.legal
  obtain ⟨hfirst, hlast⟩ := trim_eq_self_iff.1 htrimmed
  obtain ⟨hstart, hvalue⟩ := h.spells
  obtain ⟨pad, hpad, hfeed, hstop⟩ := h.exists_pad
  refine ⟨hnonempty, hfirst, ?_, ?_, pad, rest, ⟨?_, ?_⟩, ⟨hstop, ?_⟩, hpad, hfeed, ?_⟩
  · rw [← List.head?_reverse]
    exact hlast
  · intro c hc
    have hkept := hplain c hc
    rw [Bool.not_eq_true', Bool.eq_false_iff, Ne, endsText_iff, not_or, not_or] at hkept
    exact hkept
  · rw [hvalue, hstop]
  · rw [← hstop, ← hvalue]
    exact hstart.trans hsource
  · rw [← hstop]
    exact ((List.suffix_append ..).trans (hvalue ▸ hstart)).trans hsource
  · intro c hc
    have hends := h.stops_rest c hc
    rw [Bool.not_eq_false'] at hends
    exact endsText_iff.1 hends

/-- A node begins where it is read. -/
theorem ReadsNode.beginsAt (h : ReadsNode o depth lineStart cs node rest)
    (hsource : cs <:+ source) : node.BeginsAt (IsEndOf source) cs := by
  cases h with
  | text hcontent _ =>
    obtain @⟨run, rest, -, hstart, -, -⟩ := hcontent
    refine ⟨?_, hsource⟩
    rw [Fragment.ofRun, trimStart_eq_self hstart]
  | output hexpression =>
    obtain ⟨hstart, -⟩ := hexpression.spells
    obtain @⟨run, rest, -, -⟩ := hexpression
    refine ⟨run.takeWhile isWhiteSpace, trimStart run ++ '\x7d' :: rest, ?_,
      isRun_takeWhile isWhiteSpace run, rfl, hstart.trans hsource⟩
    rw [← List.append_assoc, takeWhile_append_trimStart]
  | fallthrough _ _ hkeyword =>
    obtain @⟨pad, rest, -, -⟩ := hkeyword
    exact ⟨rfl, hsource⟩
  | switch => exact ⟨rfl, hsource⟩

/-- Behind a node, only white space of its line has been read with it. -/
theorem ReadsNode.exists_endsAt (h : ReadsNode o depth lineStart cs node rest)
    (hsource : cs <:+ source) :
    ∃ pad, IsRun isWhiteSpace pad ∧ '\n' ∉ pad ∧ node.EndsAt (IsEndOf source) (pad ++ rest) := by
  have hstop := h.tiles_span.stop_suffix List.mem_cons_self
  have hspan : node.span.stop <:+ source :=
    (hstop.trans (h.tiles_span.mem List.mem_cons_self).1).trans hsource
  cases h with
  | text hcontent _ =>
    obtain ⟨pad, hpad, hfeed, hstop⟩ := hcontent.exists_pad
    exact ⟨pad, hpad, hfeed, hstop, hstop ▸ hspan⟩
  | output hexpression =>
    obtain @⟨run, rest, -, -⟩ := hexpression
    obtain ⟨lead, pad, -, hpad, -, hplace⟩ := Fragment.exists_span_ofRun run ('\x7d' :: rest)
    have hstop : (Fragment.ofRun run ('\x7d' :: rest)).span.stop = pad ++ '\x7d' :: rest :=
      congrArg Span.stop hplace
    refine ⟨[], isRun_nil, List.not_mem_nil, pad, hpad, hstop, ?_⟩
    rw [List.nil_append, ← hstop]
    exact hspan
  | fallthrough _ _ hkeyword =>
    obtain ⟨pad, hpad, hstop, -⟩ := hkeyword.exists_pad
    exact ⟨pad, hpad.mono fun _ => isWhiteSpace_of_isBlank, newline_not_mem_of_blank hpad, hstop,
      hstop ▸ hspan⟩
  | switch => exact ⟨[], isRun_nil, List.not_mem_nil, rfl, hspan⟩

theorem ReadsNode.lineStart_of_isStatement (h : ReadsNode o depth lineStart cs node rest)
    (hnode : node.isStatement = true) : lineStart = true := by
  cases h with
  | text | output => cases hnode
  | fallthrough hline _ _ => exact hline
  | switch hline _ _ _ _ => exact hline

/-! ## The nodes of a body -/

/-- Every node of a body was read somewhere in its text, and the nodes behind it were read as a body
from there on. -/
theorem ReadsBody.of_append : ∀ {before lineStart cs},
    ReadsBody o depth lineStart cs (before ++ node :: after) rest →
      ∃ lineStart ds mid, ReadsNode o depth lineStart ds node mid ∧
        ReadsBody o depth false mid after rest ∧ ds <:+ cs
  | [], _, _, .node _ _ hnode hnodes => ⟨_, _, _, hnode, hnodes, List.suffix_append ..⟩
  | _ :: before, _, _, .node _ _ hfirst hnodes => by
    obtain ⟨lineStart, ds, mid, hnode, hafter, hds⟩ := hnodes.of_append
    exact ⟨lineStart, ds, mid, hnode, hafter,
      (hds.trans hfirst.suffix).trans (List.suffix_append ..)⟩

/-- The white space between two nodes decides whether the second one begins a line. -/
theorem ReadsNode.exists_separates (hnode : ReadsNode o depth lineStart cs node mid)
    (hnodes : ReadsBody o depth false mid (next :: after) rest) (hsource : cs <:+ source) :
    ∃ white ds stop, Separates (IsEndOf source) white node next ∧
      ReadsNode o depth (white.contains '\n') ds next stop ∧
      ¬EndsBody depth (white.contains '\n') ds := by
  obtain ⟨pad, hpad, hfeed, hends⟩ := hnode.exists_endsAt hsource
  have hmid := hnode.suffix.trans hsource
  cases hnodes with
  | @node _ _ gap ds _ stop _ _ hgap hmore hnext _ =>
    have hline : (pad ++ gap).contains '\n' = (false || gap.contains '\n') := by
      rw [List.contains_append, List.contains_eq_mem, decide_eq_false hfeed]
    refine ⟨pad ++ gap, ds, stop, ⟨isRun_append.2 ⟨hpad, hgap⟩, ds, ?_, ?_⟩, ?_, ?_⟩
    · rw [List.append_assoc]
      exact hends
    · exact hnext.beginsAt ((List.suffix_append ..).trans hmid)
    · rw [hline]
      exact hnext
    · rw [hline]
      exact hmore

/-- Text that looks like a keyword has no text in front of it: that would have taken it in, or it
would end at the line feed in front of it. -/
theorem ReadsNode.isBraced_of_looksLikeKeyword (hnode : ReadsNode o depth lineStart cs node mid)
    (hnodes : ReadsBody o depth false mid (.text content :: after) rest)
    (hlooks : LooksLikeKeyword (depth != 0) content.value)
    (hplace : ∀ keyword, node ≠ .fallthrough keyword) : node.isBraced = true := by
  cases hnode with
  | text hfront _ => exact absurd hlooks (hnodes.not_looksLikeKeyword_of_stops hfront.stops_rest)
  | fallthrough => exact absurd rfl (hplace _)
  | output | switch => rfl

/-- A body that begins a line and has no `fallthrough` in front of another node is lined. -/
theorem ReadsBody.lined (h : ReadsBody o depth true cs nodes rest) (hsource : cs <:+ source)
    (hplace : ∀ keyword, .fallthrough keyword ∉ nodes.dropLast) :
    Template.Lined (IsEndOf source) (depth != 0) nodes := by
  refine ⟨?_, ?_, ?_⟩
  · intro content hmem
    obtain ⟨before, after, rfl⟩ := List.append_of_mem hmem
    obtain ⟨_, _, _, hnode, -, hds⟩ := h.of_append
    cases hnode with
    | text hcontent _ => exact hcontent.maximal (hds.trans hsource)
  · rintro before next after rfl hnext
    rcases List.eq_nil_or_concat before with rfl | ⟨others, node, rfl⟩
    · exact .inl rfl
    · rw [List.concat_eq_append, List.append_assoc] at h
      obtain ⟨_, _, _, hnode, hnodes, hds⟩ := h.of_append
      obtain ⟨white, _, _, hbetween, hread, -⟩ := hnode.exists_separates hnodes (hds.trans hsource)
      have hline := List.contains_iff_mem.1 (hread.lineStart_of_isStatement hnext)
      exact .inr ⟨others, node, white, List.concat_eq_append, hbetween, hline⟩
  · rintro before content after rfl hlooks
    rcases List.eq_nil_or_concat before with rfl | ⟨others, node, rfl⟩
    · exact absurd hlooks h.not_looksLikeKeyword
    · rw [List.concat_eq_append] at hplace
      rw [List.concat_eq_append, List.append_assoc] at h
      obtain ⟨_, _, _, hnode, hnodes, hds⟩ := h.of_append
      obtain ⟨white, _, _, hbetween, hread, hmore⟩ :=
        hnode.exists_separates hnodes (hds.trans hsource)
      refine ⟨others, node, white, List.concat_eq_append, ?_, hbetween, ?_⟩
      · refine hnode.isBraced_of_looksLikeKeyword hnodes hlooks ?_
        -- a `fallthrough` in front of the text would not be the last node of its clause
        rintro keyword rfl
        refine hplace keyword ?_
        rw [List.dropLast_append_of_ne_nil (List.cons_ne_nil _ _)]
        exact List.mem_append_left _ (List.mem_append_right _ List.mem_cons_self)
      · intro hmem
        rw [List.contains_iff_mem.2 hmem] at hread hmore
        exact hread.not_looksLikeKeyword hmore hlooks

theorem ReadsClauses.lined (hplacement : o.placement = true) {clauses : List (Clause (List Char))}
    (h : ReadsClauses o depth cs clauses rest) (hsource : cs <:+ source) :
    ∀ clause ∈ clauses, Template.Lined (IsEndOf source) true clause.children := by
  intro clause hmem
  obtain ⟨ds, mid, stop, hds, hheader, hbody⟩ := h.exists_clause clause hmem
  have hearly := Options.enforced_eq_none_iff.1 (h.enforced_early clause hmem) hplacement
  have hmid := hheader.suffix.trans (hds.trans hsource)
  exact hbody.lined hmid (earlyFallthrough?_eq_none_iff.1 hearly)

/-! ## Parsed templates -/

section Map

variable {inFront : π → List Char → Prop} {inFront' : ρ → List Char → Prop} {f : π → ρ}
  {rest white : List Char} {inClause : Bool} {node next : Node π} {nodes : List (Node π)}
  {content : Fragment π}

theorem Node.BeginsAt.map (hf : ∀ place text, inFront place text → inFront' (f place) text)
    (h : node.BeginsAt inFront rest) : (node.map f).BeginsAt inFront' rest := by
  cases node with
  | text content => exact hf _ _ h
  | output expression =>
    obtain ⟨white, inner, hcut, hwhite, hinner⟩ := h
    exact ⟨white, inner, hcut, hwhite, hf _ _ hinner⟩
  | fallthrough keyword => exact hf _ _ h
  | switch tag clauses block => exact hf _ _ h

theorem Node.EndsAt.map (hf : ∀ place text, inFront place text → inFront' (f place) text)
    (h : node.EndsAt inFront rest) : (node.map f).EndsAt inFront' rest := by
  cases node with
  | text content => exact hf _ _ h
  | output expression =>
    obtain ⟨white, hwhite, hstop⟩ := h
    exact ⟨white, hwhite, hf _ _ hstop⟩
  | fallthrough keyword => exact hf _ _ h
  | switch tag clauses block => exact hf _ _ h

theorem Separates.map (hf : ∀ place text, inFront place text → inFront' (f place) text)
    (h : Separates inFront white node next) :
    Separates inFront' white (node.map f) (next.map f) := by
  obtain ⟨hwhite, rest, hends, hbegins⟩ := h
  exact ⟨hwhite, rest, hends.map hf, hbegins.map hf⟩

theorem MaximalText.map (hf : ∀ place text, inFront place text → inFront' (f place) text)
    (h : MaximalText inFront content) : MaximalText inFront' (content.map f) := by
  obtain ⟨hnonempty, hfirst, hlast, hplain, white, rest, hstart, hstop, hwhite⟩ := h
  exact ⟨hnonempty, hfirst, hlast, hplain, white, rest, hf _ _ hstart, hf _ _ hstop, hwhite⟩

theorem Node.isStatement_map (f : π → ρ) (node : Node π) :
    (node.map f).isStatement = node.isStatement := by
  cases node <;> rfl

theorem Node.isBraced_map (f : π → ρ) (node : Node π) :
    (node.map f).isBraced = node.isBraced := by
  cases node <;> rfl

/-- How nodes keep to their lines does not depend on how places are told. -/
theorem Template.Lined.map (hf : ∀ place text, inFront place text → inFront' (f place) text)
    (h : Template.Lined inFront inClause nodes) :
    Template.Lined inFront' inClause (Template.map f nodes) := by
  rw [Template.map_eq_map]
  refine ⟨?_, ?_, ?_⟩
  · intro content' hmem'
    obtain ⟨node, hmem, hnode⟩ := List.mem_map.1 hmem'
    cases node with
    | output | fallthrough | switch => cases hnode
    | text content =>
      cases hnode
      exact (h.texts content hmem).map hf
  · intro before' next' after' hsplit hnext
    obtain ⟨before, more, rfl, rfl, hmore⟩ := List.map_eq_append_iff.1 hsplit
    obtain ⟨next, after, rfl, rfl, rfl⟩ := List.map_eq_cons_iff.1 hmore
    rw [Node.isStatement_map] at hnext
    rcases h.statements before next after rfl hnext with
      rfl | ⟨others, node, white, rfl, hbetween, hline⟩
    · exact .inl rfl
    · exact .inr ⟨_, _, white, List.map_append, hbetween.map hf, hline⟩
  · intro before' content' after' hsplit hlooks
    obtain ⟨before, more, rfl, rfl, hmore⟩ := List.map_eq_append_iff.1 hsplit
    obtain ⟨next, after, rfl, hnext, rfl⟩ := List.map_eq_cons_iff.1 hmore
    cases next with
    | output | fallthrough | switch => cases hnext
    | text content =>
      cases hnext
      obtain ⟨others, node, white, rfl, hbraced, hbetween, hline⟩ :=
        h.keywords before content after rfl hlooks
      rw [← Node.isBraced_map f] at hbraced
      exact ⟨_, _, white, List.map_append, hbraced, hbetween.map hf, hline⟩

end Map

/-- In every template that a source holds, with any limit on its nesting, the top level and every
body of a clause at any depth are lined. -/
theorem parse_lined (source : String) (limit : Option Nat) (t : Template Position)
    (h : parse source { maxDepth := limit } = .ok t) :
    Template.Lined (Position.InFrontOf source) false t ∧
      ∀ tag clauses block, .switch tag clauses block ∈ Template.subnodes t →
        ∀ clause ∈ clauses, Template.Lined (Position.InFrontOf source) true clause.children := by
  obtain ⟨nodes, hbody, rfl⟩ := parse_eq_ok_iff.1 h
  have hplaces : ∀ place text, IsEndOf source.toList place text →
      ((Source.ofString source).placeBefore place).InFrontOf source text :=
    fun _ _ hplace => hplace.inFrontOf
  refine ⟨?_, ?_⟩
  · have hlined := hbody.lined List.suffix_rfl fun keyword hmem =>
      hbody.depth_ne_zero (List.dropLast_subset nodes hmem) rfl
    exact hlined.map hplaces
  · intro tag' clauses' block' hmem' clause' hclause'
    rw [Template.subnodes_map] at hmem'
    obtain ⟨node, hmem, hnode⟩ := List.mem_map.1 hmem'
    obtain ⟨depth, lineStart, ds, stop, hread, hds, -⟩ := hbody.between node hmem
    cases hread with
    | text | output | fallthrough => cases hnode
    | switch _ hheader _ hclauses _ =>
      cases hnode
      rw [Clause.mapAll_eq_map] at hclause'
      obtain ⟨clause, hclause, rfl⟩ := List.mem_map.1 hclause'
      rw [Clause.children_map]
      exact (hclauses.lined rfl (hheader.suffix.trans hds) clause hclause).map hplaces

/-- Words of keywords behind an expression and behind a block that begins on the line of a header. -/
theorem parse_lined_words :
    ∃ t, parse ("\x7b x \x7d switch y\nswitch \x7b\ncase 1:\u00a0z \n\tfallthrough\n" ++
        "default: switch \x7b\n\x7d\u2003case c\n\x7d") { maxDepth := some 2 } = .ok t ∧
      Template.Lined (Position.InFrontOf
        ("\x7b x \x7d switch y\nswitch \x7b\ncase 1:\u00a0z \n\tfallthrough\n" ++
          "default: switch \x7b\n\x7d\u2003case c\n\x7d")) false t ∧
      ∀ tag clauses block, .switch tag clauses block ∈ Template.subnodes t →
        ∀ clause ∈ clauses, Template.Lined (Position.InFrontOf
          ("\x7b x \x7d switch y\nswitch \x7b\ncase 1:\u00a0z \n\tfallthrough\n" ++
            "default: switch \x7b\n\x7d\u2003case c\n\x7d")) true clause.children := by
  have hparse : parse ("\x7b x \x7d switch y\nswitch \x7b\ncase 1:\u00a0z \n\tfallthrough\n" ++
      "default: switch \x7b\n\x7d\u2003case c\n\x7d") { maxDepth := some 2 } = .ok [
        .output ⟨"x", ⟨⟨2, 1, 3⟩, ⟨3, 1, 4⟩⟩⟩,
        .text ⟨"switch y", ⟨⟨6, 1, 7⟩, ⟨14, 1, 15⟩⟩⟩,
        .switch ⟨"", ⟨⟨22, 2, 8⟩, ⟨22, 2, 8⟩⟩⟩
          [⟨.case ⟨"1", ⟨⟨29, 3, 6⟩, ⟨30, 3, 7⟩⟩⟩, [
            .text ⟨"z", ⟨⟨33, 3, 9⟩, ⟨34, 3, 10⟩⟩⟩,
            .fallthrough ⟨"fallthrough", ⟨⟨37, 4, 2⟩, ⟨48, 4, 13⟩⟩⟩]⟩,
          ⟨.default ⟨⟨49, 5, 1⟩, ⟨56, 5, 8⟩⟩, [
            .switch ⟨"", ⟨⟨65, 5, 17⟩, ⟨65, 5, 17⟩⟩⟩ [] ⟨⟨58, 5, 10⟩, ⟨68, 6, 2⟩⟩,
            .text ⟨"case c", ⟨⟨71, 6, 3⟩, ⟨77, 6, 9⟩⟩⟩]⟩]
          ⟨⟨15, 2, 1⟩, ⟨79, 7, 2⟩⟩] := by
    decide +kernel
  exact ⟨_, hparse, parse_lined _ _ _ hparse⟩

end SwitchMarkup

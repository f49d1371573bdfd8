import SwitchMarkup.Proofs.Grammar.Run
import SwitchMarkup.Proofs.Printer.Written
import SwitchMarkup.Template.Equality

/-!
# Printing keeps all content

A source and the canonical source of its template differ in white space only: every visible
character that is read is written again, once and in its place. For one construct at a time this is
a matter of what surrounds its expression, and from there it holds of every derivation in front of
any text that is written behind it. Main statement: `parse_print_visible`.
-/

namespace SwitchMarkup

variable {o : Options} {cs ds rest : List Char} {piece : Fragment (List Char)}
  {header : Header (List Char)}

/-- The characters of a text that are not white space, in order. -/
def visible (cs : List Char) : List Char := cs.filter fun c => !isWhiteSpace c

/-! ## Visible characters -/

@[simp] theorem visible_append : visible (cs ++ ds) = visible cs ++ visible ds :=
  List.filter_append ..

theorem visible_cons (c : Char) (cs : List Char) :
    visible (c :: cs) = (if isWhiteSpace c then [] else [c]) ++ visible cs := by
  rw [visible, List.filter_cons]
  cases isWhiteSpace c <;> rfl

/-- White space is not visible. -/
theorem visible_white (h : IsRun isWhiteSpace cs) : visible cs = [] := by
  rw [visible, List.filter_eq_nil_iff]
  intro c hc
  simp [h c hc]

theorem visible_blank (h : IsRun isBlank cs) : visible cs = [] :=
  visible_white (h.mono fun _ => isWhiteSpace_of_isBlank)

/-- Trimming takes nothing visible. -/
theorem visible_trim (cs : List Char) : visible (trim cs) = visible cs := by
  obtain ⟨pad, hpad, hcs, -⟩ := exists_trim_append cs
  have hlead := visible_white (isRun_takeWhile isWhiteSpace cs)
  conv => rhs; rw [hcs]
  rw [visible_append, visible_append, hlead, visible_white hpad, List.nil_append, List.append_nil]

/-- The value of a fragment has the visible characters of its run. -/
theorem visible_ofRun (run rest : List Char) :
    visible (Fragment.ofRun run rest).value.toList = visible run := by
  rw [Fragment.value_ofRun, String.toList_ofList, visible_trim]

theorem visible_lineEnd {lineEnd : List Char} (h : IsLineEnd lineEnd) : visible lineEnd = [] := by
  rcases h with rfl | rfl <;> decide

/-! ## Constructs -/

/-- The opening line of a block shows its keyword, its tag and the brace. -/
theorem visible_openingLine (tag : String) :
    visible (openingLine tag) = visible Keyword.switch ++ (visible tag.toList ++ ['\x7b']) := by
  have hopen : visible ['\x7b', '\n'] = ['\x7b'] := by decide
  have hspace : visible [' '] = [] := by decide
  rw [openingLine, Keyword.spaced, visible_append, visible_append, visible_append, hopen, hspace,
    List.append_nil]
  split
  next hempty => rw [String.isEmpty_iff.1 hempty]; rfl
  next => rw [visible_append, hspace, List.append_nil]

/-- Text that is read shows its value. -/
theorem ReadsText.visible_eq (h : ReadsText cs piece rest) :
    visible cs = visible piece.value.toList ++ visible rest := by
  obtain @⟨run, rest, -, -, -, -⟩ := h
  rw [visible_ofRun, visible_append]

theorem ReadsOutput.visible_eq (h : ReadsOutput cs piece rest) :
    visible cs = '\x7b' :: (visible piece.value.toList ++ '\x7d' :: visible rest) := by
  obtain @⟨run, rest, -, -⟩ := h
  rw [visible_ofRun, visible_cons, visible_append, visible_cons]
  rfl

theorem ReadsFallthrough.visible_eq (h : ReadsFallthrough cs piece rest) :
    visible cs = visible Keyword.fallthrough ++ visible rest := by
  obtain @⟨pad, rest, hpad, -⟩ := h
  rw [visible_append, visible_append, visible_blank hpad, List.nil_append]

theorem ReadsSwitchHeader.visible_eq (h : ReadsSwitchHeader cs piece rest) :
    visible cs = visible (openingLine piece.value) ++ visible rest := by
  obtain @⟨gap, run, pad, lineEnd, rest, hgap, -, -, hpad, hend⟩ := h
  have hspace : visible [' '] = [] := by decide
  rw [visible_openingLine, visible_ofRun, Keyword.spaced]
  simp only [visible_append, visible_cons '\x7b', visible_blank hgap, visible_blank hpad,
    visible_lineEnd hend, hspace, List.append_assoc, List.nil_append]
  rfl

/-- The header of a clause shows what its line shows. -/
theorem ReadsClauseHeader.visible_eq (h : ReadsClauseHeader cs header rest) :
    visible cs = visible header.line ++ visible rest := by
  cases h with
  | @case gap run rest hgap _ _ _ =>
    rw [Header.line]
    simp only [visible_append, visible_cons ':', visible_blank hgap, visible_ofRun,
      List.append_assoc, List.nil_append]
    rfl
  | @default pad rest hpad =>
    rw [Header.line]
    simp only [visible_append, visible_cons ':', visible_blank hpad, List.append_assoc,
      List.nil_append]
    rfl

/-! ## Nodes, bodies and clauses -/

theorem visible_lead (line : LineState) (d : Nat) (node : Node (List Char)) :
    visible (line.lead d node) = [] :=
  visible_white (line.isRun_lead d node)

theorem visible_indent (d : Nat) : visible (List.replicate d '\t') = [] :=
  visible_white (isRun_replicate (by decide) d)

theorem visible_finish (line : LineState) : visible line.finish = [] := by
  cases line <;> decide

mutual

/-- Printing a node shows what it was read from, if what is printed behind it shows the rest. -/
theorem ReadsNode.visible_write {more : List Char} (d : Nat) :
    ∀ {depth lineStart cs node rest}, ReadsNode o depth lineStart cs node rest →
      visible more = visible rest → visible (node.write d more) = visible cs
  | _, _, _, _, _, .text hcontent _, hmore => by
    rw [Node.write, hcontent.visible_eq, visible_append, hmore]
  | _, _, _, _, _, .output hexpression, hmore => by
    have hopen : visible ['\x7b', ' '] = ['\x7b'] := by decide
    have hclose : visible [' ', '\x7d'] = ['\x7d'] := by decide
    rw [Node.write, hexpression.visible_eq, visible_append, visible_append, visible_append, hopen,
      hclose, hmore]
    rfl
  | _, _, _, _, _, .fallthrough _ _ hkeyword, hmore => by
    rw [Node.write, hkeyword.visible_eq, visible_append, visible_cons, hmore]
    rfl
  | _, _, _, _, _, @ReadsNode.switch _ _ _ _ _ _ _ rest _ hheader _ hclauses _, hmore => by
    have hclose : visible (List.replicate d '\t' ++ (['\x7d', '\n'] ++ more)) =
        visible ('\x7d' :: rest) := by
      rw [visible_append, visible_indent, visible_append, hmore, visible_cons]
      rfl
    rw [Node.write, hheader.visible_eq, visible_append, hclauses.visible_writeAll d hclose]

/-- What is written for the nodes of a body has the visible characters that they were read from, in
front of a text with those of the text behind the body. -/
theorem ReadsBody.visible_write {more : List Char} (d : Nat) :
    ∀ {depth lineStart cs nodes rest} (line : LineState),
      ReadsBody o depth lineStart cs nodes rest → visible more = visible rest →
      visible (Template.write d line nodes more) = visible cs
  | _, _, _, _, _, line, .done hgap _, hmore => by
    rw [Template.write, visible_append, visible_append, visible_finish, visible_white hgap, hmore]
  | _, _, _, _, _, line, .node hgap _ hnode hnodes, hmore => by
    rw [Template.write, visible_append, visible_append, visible_lead, visible_white hgap,
      hnode.visible_write d (hnodes.visible_write d _ hmore)]

/-- Printing the clauses of a block shows what they were read from. -/
theorem ReadsClauses.visible_writeAll {more : List Char} (d : Nat) :
    ∀ {depth cs clauses rest}, ReadsClauses o depth cs clauses rest →
      visible more = visible ('\x7d' :: rest) →
      visible (Clause.writeAll d clauses more) = visible cs
  | _, _, _, _, .done hgap, hmore => by
    rw [Clause.writeAll, visible_append, visible_white hgap, hmore, List.nil_append]
  | _, _, _, _, .clause hgap hheader hbody _ hclauses, hmore => by
    rw [Clause.writeAll, Clause.write, visible_append, visible_append, visible_append,
      visible_indent, visible_white hgap, hheader.visible_eq,
      hbody.visible_write (d + 2) .fresh (hclauses.visible_writeAll d hmore)]

end

/-- The canonical source of a parsed template has just the visible characters of its source, in the
same order. -/
theorem parse_print_visible (source : String) (o : Options) (t : Template Position)
    (h : parse source o = .ok t) : visible t.print.toList = visible source.toList := by
  obtain ⟨nodes, hbody, rfl⟩ := parse_eq_ok_iff.1 h
  rw [Template.print, String.toList_ofList, Template.write_map]
  exact hbody.visible_write 0 .fresh rfl

/-- White space of several kinds around each part, and blanks in front of a colon. -/
theorem parse_print_visible_padded :
    ∃ t, parse "a \u2003b\x7b\u00a0c\n\x7d\nswitch \t\x7b \r\n\u0085default \t: d\n\x7d" = .ok t ∧
      visible t.print.toList =
        visible "a \u2003b\x7b\u00a0c\n\x7d\nswitch \t\x7b \r\n\u0085default \t: d\n\x7d".toList := by
  have hparse :
      parse "a \u2003b\x7b\u00a0c\n\x7d\nswitch \t\x7b \r\n\u0085default \t: d\n\x7d" = .ok [
        .text ⟨"a \u2003b", ⟨⟨0, 1, 1⟩, ⟨6, 1, 5⟩⟩⟩,
        .output ⟨"c", ⟨⟨9, 1, 7⟩, ⟨10, 1, 8⟩⟩⟩,
        .switch ⟨"", ⟨⟨21, 3, 9⟩, ⟨21, 3, 9⟩⟩⟩
          [⟨.default ⟨⟨27, 4, 2⟩, ⟨34, 4, 9⟩⟩, [.text ⟨"d", ⟨⟨38, 4, 13⟩, ⟨39, 4, 14⟩⟩⟩]⟩]
          ⟨⟨13, 3, 1⟩, ⟨41, 5, 2⟩⟩] := by
    decide +kernel
  exact ⟨_, hparse, parse_print_visible _ _ _ hparse⟩

end SwitchMarkup

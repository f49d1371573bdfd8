import SwitchMarkup.Proofs.Grammar.Basic
import SwitchMarkup.Template.Printer

/-!
# Lines that are read as they are meant

Each construct has one plain spelling: a single space where there must be a blank, and the line
end directly behind it. When the expression in it is legal, trimmed and made of nothing but items,
the grammar reads the construct back from that spelling with just that expression.
-/

namespace SwitchMarkup

open Items

variable {o : Options} {depth : Nat} {π : Type} {kind : Kind} {value : String} {cs rest : List Char}

/-! ## Legal expressions -/

/-- The text stands for itself as an expression of a kind: there is no white space around it, and
it is made of items of the kind. -/
structure Items.Legal (kind : Kind) (value : String) : Prop where
  trimmed : trim value.toList = value.toList
  covers : Covers kind value.toList

instance : Decidable (Covers kind cs) := inferInstanceAs (Decidable (afterItems kind cs = []))

instance : Decidable (Legal kind value) :=
  decidable_of_iff (trim value.toList = value.toList ∧ Covers kind value.toList)
    ⟨fun h => ⟨h.1, h.2⟩, fun h => ⟨h.trimmed, h.covers⟩⟩

/-- The list of a header, if there is one, is legal and not empty. -/
def Header.Legal (header : Header π) : Prop :=
  ∀ list ∈ header.list?, list ≠ "" ∧ Items.Legal .list list

theorem Items.Legal.stops (h : Legal kind value) : Stops isWhiteSpace value.toList :=
  (trim_eq_self_iff.1 h.trimmed).1

/-- A legal expression with space around it is read as that expression. -/
theorem Items.Legal.trim_pad {lead pad : List Char} (h : Legal kind value)
    (hlead : IsRun isWhiteSpace lead) (hpad : IsRun isWhiteSpace pad) :
    String.ofList (trim (lead ++ (value.toList ++ pad))) = value := by
  rw [SwitchMarkup.trim_pad hlead hpad h.trimmed, String.ofList_toList]

theorem stops_isBlank_of_stops (h : Stops isWhiteSpace cs) : Stops isBlank cs := by
  intro c hc
  rw [Bool.eq_false_iff]
  intro hblank
  have hwhite := isWhiteSpace_of_isBlank hblank
  rw [h c hc] at hwhite
  cases hwhite

/-! ## Output expressions -/

/-- A legal value between a blank and a blank in braces is read back. -/
theorem readsOutput_spaced (h : Legal .braced value) (hvalue : value ≠ "") (rest : List Char) :
    ∃ expression, ReadsOutput ('\x7b' :: ' ' :: (value.toList ++ ' ' :: '\x7d' :: rest))
      expression rest ∧ expression.value = value := by
  have hblank : IsRun isWhiteSpace [' '] := isRun_cons.2 ⟨by decide, isRun_nil⟩
  have htrim := h.trim_pad hblank hblank
  have hcovers : Covers .braced ([' '] ++ (value.toList ++ [' '])) :=
    covers_space.append (h.covers.append covers_space)
  have hne : trim ([' '] ++ (value.toList ++ [' '])) ≠ [] := by
    intro hnil
    rw [hnil] at htrim
    exact hvalue htrim.symm
  refine ⟨.ofRun ([' '] ++ (value.toList ++ [' '])) ('\x7d' :: rest), ?_, htrim⟩
  have hread : ReadsOutput
      ('\x7b' :: (([' '] ++ (value.toList ++ [' '])) ++ '\x7d' :: rest)) _ rest := .mk hcovers hne
  rw [List.append_assoc, List.append_assoc] at hread
  exact hread

/-! ## Text and fallthroughs -/

/-- A text can be the content of a text node: it has no white space around it, no brace and no
line feed in it, and is not empty. -/
structure LegalText (value : String) : Prop where
  trimmed : trim value.toList = value.toList
  nonempty : value ≠ ""
  plain : IsRun (fun c => !endsText c) value.toList

theorem readsText_value (h : LegalText value) (hrest : Stops (fun c => !endsText c) rest) :
    ∃ content, ReadsText (value.toList ++ rest) content rest ∧ content.value = value := by
  have hne : value.toList ≠ [] := fun hnil => h.nonempty (String.toList_eq_nil_iff.1 hnil)
  refine ⟨_, .mk hne (trim_eq_self_iff.1 h.trimmed).1 h.plain hrest, ?_⟩
  rw [Fragment.value_ofRun, h.trimmed, String.ofList_toList]

theorem readsFallthrough_line (rest : List Char) :
    ∃ keyword, ReadsFallthrough (Keyword.fallthrough ++ '\n' :: rest) keyword ('\n' :: rest) ∧
      keyword.value = "fallthrough" := by
  refine ⟨.ofRun Keyword.fallthrough ('\n' :: rest), .mk isRun_nil ?_, ?_⟩
  · rintro c ⟨rfl⟩
    rfl
  · rw [Fragment.value_ofRun]
    decide

/-- The line of a `fallthrough` in front of a body that begins on the next line. -/
theorem readsBody_fallthroughLine {nodes : List (Node (List Char))} {stop : List Char}
    (hdepth : depth ≠ 0) (hmore : ReadsBody o depth true rest nodes stop) :
    ∃ keyword, ReadsBody o depth true (Keyword.fallthrough ++ '\n' :: rest)
      (.fallthrough keyword :: nodes) stop ∧ keyword.value = "fallthrough" := by
  obtain ⟨keyword, hkeyword, hvalue⟩ := readsFallthrough_line rest
  refine ⟨keyword, ReadsBody.cons (.fallthrough rfl hdepth hkeyword) (fun _ _ hopens => ?_)
    (readsBody_newline_iff.2 hmore), hvalue⟩
  exact absurd (OpensClause.head (d := 'f') hopens) (by decide)

/-! ## Headers -/

/-- A tag with a space on each side. -/
theorem readsSwitchHeader_spaced (h : Legal .tag value) (rest : List Char) :
    ∃ tag, ReadsSwitchHeader
      (Keyword.spaced Keyword.switch ++ (value.toList ++ ' ' :: '\x7b' :: '\n' :: rest)) tag rest ∧
      tag.value = value := by
  have hspace : IsRun isBlank [' '] := isRun_cons.2 ⟨rfl, isRun_nil⟩
  have hwhite : IsRun isWhiteSpace [' '] := hspace.mono fun _ => isWhiteSpace_of_isBlank
  by_cases hempty : value.toList = []
  · -- Both spaces stand in front of a tag that is empty.
    refine ⟨.ofRun [] ('\x7b' :: '\n' :: rest), ?_, ?_⟩
    · rw [hempty]
      exact .mk hspace stops_nil covers_nil isRun_nil (.inl rfl)
    · rw [String.toList_eq_nil_iff.1 hempty, Fragment.value_ofRun, trim_nil, String.ofList_nil]
  · have hstart : Stops isBlank (value.toList ++ [' ']) := by
      have hvalue := stops_isBlank_of_stops h.stops
      cases hcs : value.toList with
      | nil => exact absurd hcs hempty
      | cons c cs =>
        rw [hcs] at hvalue
        exact stops_cons.2 (stops_cons.1 hvalue)
    refine ⟨.ofRun (value.toList ++ [' ']) ('\x7b' :: '\n' :: rest), ?_, ?_⟩
    · rw [List.append_cons]
      exact .mk isRun_nil hstart (h.covers.append covers_space) isRun_nil (.inl rfl)
    · rw [Fragment.value_ofRun, ← List.nil_append (value.toList ++ [' '])]
      exact h.trim_pad isRun_nil hwhite

/-- A legal tag is read back from the opening line of a block. -/
theorem readsSwitchHeader_openingLine (h : Legal .tag value) (rest : List Char) :
    ∃ tag, ReadsSwitchHeader (openingLine value ++ rest) tag rest ∧ tag.value = value := by
  rw [openingLine, List.append_assoc]
  split
  next hempty =>
    refine ⟨.ofRun [] ('\x7b' :: '\n' :: rest), ?_, ?_⟩
    · exact .mk isRun_nil stops_nil covers_nil isRun_nil (.inl rfl)
    · rw [String.isEmpty_iff.1 hempty, Fragment.value_ofRun, trim_nil, String.ofList_nil]
  next =>
    rw [List.append_assoc, List.append_assoc]
    exact readsSwitchHeader_spaced h rest

/-- A legal header is read back from its line. -/
theorem readsClauseHeader_line {header : Header π} (h : header.Legal) (rest : List Char) :
    ∃ read, ReadsClauseHeader (header.line ++ rest) read ('\n' :: rest) ∧
      read.map (fun _ => ()) = header.map fun _ => () := by
  cases header with
  | case list =>
    obtain ⟨hne, hlegal⟩ := h list.value rfl
    have hne' : list.value.toList ≠ [] := fun hnil => hne (String.toList_eq_nil_iff.1 hnil)
    refine ⟨.case (.ofRun list.value.toList (':' :: '\n' :: rest)), ?_, ?_⟩
    · rw [Header.line, List.append_assoc, List.append_assoc]
      exact .case isRun_nil hne' (stops_isBlank_of_stops hlegal.stops) hlegal.covers
    · rw [Header.map, Header.map, Fragment.map, Fragment.map, Fragment.value_ofRun, hlegal.trimmed,
        String.ofList_toList]
      rfl
  | default keyword =>
    refine ⟨.default ⟨Keyword.default ++ ':' :: '\n' :: rest, ':' :: '\n' :: rest⟩, ?_, rfl⟩
    rw [Header.line, List.append_assoc]
    exact .default isRun_nil

theorem Header.opensClause_line (header : Header π) (rest : List Char) :
    OpensClause (header.line ++ rest) := by
  cases header with
  | case list =>
    rw [Header.line, List.append_assoc]
    exact .inl (List.prefix_append ..)
  | default keyword =>
    rw [Header.line, List.append_assoc]
    exact .inr (List.prefix_append ..)

end SwitchMarkup

import SwitchMarkup.Parser.Step
import SwitchMarkup.Proofs.Expression.Items
import SwitchMarkup.Proofs.Source.Places

/-!
# The constructs of a template as texts

Each relation says which texts begin with a construct, what the construct holds and what stands
behind it, with places given by the text behind them. There are no cursors and no order of trials
here: a construct is cut into its parts, and each part is of its class.
-/

namespace SwitchMarkup

open Items

variable {word cs ds rest : List Char} {d : Char} {t : Tail}

/-! ## Keywords -/

/-- A clause header begins the text. -/
def OpensClause (cs : List Char) : Prop :=
  Keyword.spaced Keyword.case <+: cs ∨ Keyword.default <+: cs

/-- A statement begins the text. -/
def OpensStatement (cs : List Char) : Prop :=
  Keyword.fallthrough <+: cs ∨ Keyword.spaced Keyword.switch <+: cs

/-- A line of a header ends in front of the text. -/
def EndsLine (cs : List Char) : Prop := ∀ c ∈ cs.head?, isLineBreak c = true

/-- The text is a line end: a line feed, alone or after a carriage return. -/
def IsLineEnd (cs : List Char) : Prop := cs = ['\n'] ∨ cs = ['\r', '\n']

/-- A body inside `depth` switches ends in front of the text. -/
def EndsBody (depth : Nat) (lineStart : Bool) (cs : List Char) : Prop :=
  if depth = 0 then cs = [] else ['\x7d'] <+: cs ∨ lineStart = true ∧ OpensClause cs

theorem endsBody_zero_iff {lineStart : Bool} : EndsBody 0 lineStart cs ↔ cs = [] := by
  rw [EndsBody, if_pos rfl]

theorem endsBody_succ_iff {depth : Nat} {lineStart : Bool} :
    EndsBody (depth + 1) lineStart cs ↔
      ['\x7d'] <+: cs ∨ lineStart = true ∧ OpensClause cs := by
  rw [EndsBody, if_neg (Nat.succ_ne_zero depth)]

/-- Text ends at a brace or a line feed. -/
theorem endsText_iff : endsText d = true ↔ d = '\x7b' ∨ d = '\x7d' ∨ d = '\n' := by
  simp [endsText, or_assoc]

/-- A word is not completed by text that begins with another character. -/
theorem prefix_append_cons_iff (h : d ∉ word) : word <+: cs ++ d :: ds ↔ word <+: cs := by
  induction cs generalizing word with
  | nil =>
    cases word with
    | nil => simp
    | cons c word =>
      rw [List.nil_append, List.cons_prefix_cons, List.prefix_nil]
      constructor
      · rintro ⟨rfl, -⟩
        exact absurd List.mem_cons_self h
      · intro hnil
        cases hnil
  | cons c cs ih =>
    cases word with
    | nil => simp
    | cons w word =>
      rw [List.cons_append, List.cons_prefix_cons, List.cons_prefix_cons,
        ih fun hmem => h (List.mem_cons_of_mem _ hmem)]

/-- No keyword goes on where text ends. -/
theorem prefix_append_iff (hword : IsRun (fun c => !endsText c) word)
    (hrest : Stops (fun c => !endsText c) rest) : word <+: cs ++ rest ↔ word <+: cs := by
  cases rest with
  | nil => rw [List.append_nil]
  | cons d rest =>
    refine prefix_append_cons_iff fun hmem => ?_
    exact absurd ((hword d hmem).symm.trans (stops_cons.1 hrest)) nofun

/-- Whether a clause begins shows in front of the next brace or line end. -/
theorem opensClause_append_iff (hrest : Stops (fun c => !endsText c) rest) :
    OpensClause (cs ++ rest) ↔ OpensClause cs := by
  rw [OpensClause, OpensClause, prefix_append_iff (by decide) hrest,
    prefix_append_iff (by decide) hrest]

/-- Whether a statement begins shows in front of the next brace or line end. -/
theorem opensStatement_append_iff (hrest : Stops (fun c => !endsText c) rest) :
    OpensStatement (cs ++ rest) ↔ OpensStatement cs := by
  rw [OpensStatement, OpensStatement, prefix_append_iff (by decide) hrest,
    prefix_append_iff (by decide) hrest]

theorem OpensClause.head (h : OpensClause (d :: cs)) : d = 'c' ∨ d = 'd' := by
  rcases h with h | h
  · exact .inl (List.cons_prefix_cons.1 h).1.symm
  · exact .inr (List.cons_prefix_cons.1 h).1.symm

/-- A clause does not begin with a closing brace. -/
theorem not_opensClause_of_closes (h : ['\x7d'] <+: cs) : ¬OpensClause cs := by
  obtain ⟨more, rfl⟩ := h
  intro hopens
  exact absurd hopens.head (by decide)

theorem not_opensClause_nil : ¬OpensClause [] := by
  rintro (h | h)
  · cases List.prefix_nil.1 h
  · cases List.prefix_nil.1 h

theorem Tail.startsClause_iff : t.startsClause = true ↔ OpensClause t.chars := by
  rw [Tail.startsClause, Bool.or_eq_true]
  exact or_congr List.isPrefixOf_iff_prefix List.isPrefixOf_iff_prefix

theorem Tail.atLineBreak_iff : t.atLineBreak = true ↔ EndsLine t.chars := by
  rw [Tail.atLineBreak, EndsLine]
  cases t.chars with
  | nil => simp
  | cons c cs => simp

/-! ## Constructs -/

/-- Text, up to the next brace or the end of its line. -/
inductive ReadsText : List Char → Fragment (List Char) → List Char → Prop where
  | mk {run rest : List Char} (hne : run ≠ []) (hstart : Stops isWhiteSpace run)
      (hrun : IsRun (fun c => !endsText c) run) (hrest : Stops (fun c => !endsText c) rest) :
      ReadsText (run ++ rest) (.ofRun run rest) rest

/-- An expression in braces. -/
inductive ReadsOutput : List Char → Fragment (List Char) → List Char → Prop where
  | mk {run rest : List Char} (hrun : Covers .braced run) (hvalue : trim run ≠ []) :
      ReadsOutput ('\x7b' :: (run ++ '\x7d' :: rest)) (.ofRun run ('\x7d' :: rest)) rest

/-- A `fallthrough`, which ends its line. -/
inductive ReadsFallthrough : List Char → Fragment (List Char) → List Char → Prop where
  | mk {pad rest : List Char} (hpad : IsRun isBlank pad) (hrest : EndsLine rest) :
      ReadsFallthrough (Keyword.fallthrough ++ (pad ++ rest))
        (.ofRun Keyword.fallthrough (pad ++ rest)) rest

/-- The header of a switch with the line end behind its brace. -/
inductive ReadsSwitchHeader : List Char → Fragment (List Char) → List Char → Prop where
  | mk {gap run pad lineEnd rest : List Char} (hgap : IsRun isBlank gap) (hstart : Stops isBlank run)
      (hrun : Covers .tag run) (hpad : IsRun isBlank pad) (hend : IsLineEnd lineEnd) :
      ReadsSwitchHeader
        (Keyword.spaced Keyword.switch ++ (gap ++ (run ++ '\x7b' :: (pad ++ (lineEnd ++ rest)))))
        (.ofRun run ('\x7b' :: (pad ++ (lineEnd ++ rest)))) rest

/-- A clause header up to its colon. -/
inductive ReadsClauseHeader : List Char → Header (List Char) → List Char → Prop where
  | case {gap run rest : List Char} (hgap : IsRun isBlank gap) (hne : run ≠ [])
      (hstart : Stops isBlank run) (hrun : Covers .list run) :
      ReadsClauseHeader (Keyword.spaced Keyword.case ++ (gap ++ (run ++ ':' :: rest)))
        (.case (.ofRun run (':' :: rest))) rest
  | default {pad rest : List Char} (hpad : IsRun isBlank pad) :
      ReadsClauseHeader (Keyword.default ++ (pad ++ ':' :: rest))
        (.default ⟨Keyword.default ++ (pad ++ ':' :: rest), pad ++ ':' :: rest⟩) rest

/-- A header that is read begins a clause. -/
theorem ReadsClauseHeader.opensClause {header : Header (List Char)}
    (h : ReadsClauseHeader cs header rest) : OpensClause cs := by
  cases h with
  | case => exact .inl (List.prefix_append ..)
  | default => exact .inr (List.prefix_append ..)

end SwitchMarkup

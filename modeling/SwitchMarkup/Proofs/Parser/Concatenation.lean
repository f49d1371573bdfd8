import SwitchMarkup.Proofs.Parser.Seam
import SwitchMarkup.Proofs.Parser.Shift
import SwitchMarkup.Proofs.Source.Lines
import SwitchMarkup.Template.Equality

/-!
# Sources one behind the other

A source that can be read and ends in a line feed does not matter for what is read behind it, and
what is read behind it does not matter for the source. So a parse of both together is a parse of
each: the nodes of the first and then those of the second, or the failure of the second, with the
places of the second moved along by the bytes and lines of the first. Main statement:
`parse_append`.
-/

namespace SwitchMarkup

variable {o : Options} {cs ds : List Char} {events : List Event} {final : List (Node Nat)}

theorem Failure.map_map {π ρ σ : Type} (f : π → ρ) (g : ρ → σ) (failure : Failure π) :
    (failure.map f).map g = failure.map (g ∘ f) := rfl

/-- Behind a text that ends in a line feed a source is read as on its own, further on and behind the
nodes of that text. -/
theorem readSource_append (hseam : cs = [] ∨ EndsInFeed cs)
    (h : readSource o cs = ⟨events, .ok final⟩) (ds : List Char) :
    readSource o (cs ++ ds) =
      ((readSource o ds).behind (byteLength cs) final).after events := by
  have hstart : Seam .initial cs :=
    hseam.elim (fun hnil => .inr ⟨hnil, nofun⟩) .inl
  have hextend : run o .initial ((Tail.start cs).extend ds) =
      (run o (.body [] final true) ⟨byteLength cs, ds⟩).after events :=
    run_extend ds .initial (.start cs) (Tail.fits_start cs) hstart h
  have hbehind : run o (.body [] final true) ⟨byteLength cs, ds⟩ =
      (readSource o ds).behind (byteLength cs) final := by
    have h : run o (Stage.initial.behind (byteLength cs) final)
        ((Tail.start ds).shift (byteLength cs)) = _ := run_behind .initial (.start ds)
    rw [readSource, ← h, Tail.shift, Tail.start, Nat.zero_add]
    show _ = run o (.body [] (final ++ []) true) _
    rw [List.append_nil]
  rw [← hbehind, ← hextend]
  rfl

/-- Places of a source that is read are places of the source with more text behind it. -/
theorem map_positionAt_append {front back : String}
    (h : (readSource o front.toList).result = .ok final) :
    Template.map (Source.ofString (front ++ back)).positionAt final =
      Template.map (Source.ofString front).positionAt final := by
  obtain ⟨nodes, -, rfl⟩ := readSource_eq_ok_iff.1 h
  rw [Template.map_map, Template.map_map]
  congr 1
  funext rest
  exact Source.positionAt_append_of_le (Nat.sub_le _ _)

/-- Behind a source that can be read and that is empty or ends in a line feed, any other source is
read as it is on its own. -/
theorem parse_append (o : Options) (front back : String) (t : Template Position)
    (hseam : front = "" ∨ front.toList.getLast? = some '\n') (h : parse front o = .ok t) :
    parse (front ++ back) o =
      match parse back o with
      | .ok u => .ok (t ++ Template.map (Position.behind front.toList) u)
      | .error failure => .error (failure.map (Position.behind front.toList)) := by
  have hseam' : front.toList = [] ∨ EndsInFeed front.toList :=
    hseam.imp_left fun hempty => by rw [hempty]; rfl
  have hplace : (Source.ofString (front ++ back)).positionAt ∘ (· + byteLength front.toList) =
      Position.behind front.toList ∘ (Source.ofString back).positionAt :=
    funext fun n => Source.positionAt_append_add hseam' n
  simp only [parse, parseWithEvents, Outcome.map] at h ⊢
  cases hfront : readSource o front.toList with
  | mk events result =>
    rw [hfront] at h
    cases result with
    | error failure => cases h
    | ok final =>
      cases h
      have hresult : (readSource o front.toList).result = .ok final := by rw [hfront]
      rw [String.toList_append, readSource_append hseam' hfront]
      simp only [Outcome.after, Outcome.behind]
      cases (readSource o back.toList).result with
      | ok more =>
        simp only [Template.map_append, Template.map_map, hplace, map_positionAt_append hresult]
      | error failure =>
        simp only [Failure.map_map, hplace]

/-- A second line that can be read, and one that cannot. -/
theorem parse_append_lines :
    parse ("é\n" ++ "\x7b y \x7d") = .ok [
        .text ⟨"é", ⟨⟨0, 1, 1⟩, ⟨2, 1, 2⟩⟩⟩, .output ⟨"y", ⟨⟨5, 2, 3⟩, ⟨6, 2, 4⟩⟩⟩] ∧
      parse ("é\n" ++ "b \x7d") = .error ⟨⟨5, 2, 3⟩, .unexpected '\x7d'⟩ := by
  have hfront : parse "é\n" = .ok [.text ⟨"é", ⟨⟨0, 1, 1⟩, ⟨2, 1, 2⟩⟩⟩] := by
    decide +kernel
  have houtput : parse "\x7b y \x7d" = .ok [.output ⟨"y", ⟨⟨2, 1, 3⟩, ⟨3, 1, 4⟩⟩⟩] := by
    decide +kernel
  have hbrace : parse "b \x7d" = .error ⟨⟨2, 1, 3⟩, .unexpected '\x7d'⟩ := by
    decide +kernel
  constructor
  · rw [parse_append {} "é\n" "\x7b y \x7d" _ (.inr rfl) hfront, houtput]
    rfl
  · rw [parse_append {} "é\n" "b \x7d" _ (.inr rfl) hfront, hbrace]
    rfl

end SwitchMarkup

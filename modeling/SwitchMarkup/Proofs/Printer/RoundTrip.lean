import SwitchMarkup.Proofs.Grammar.Run
import SwitchMarkup.Proofs.Printer.ReadBack

/-!
# Reading back what was printed

A template is read back from its canonical source, up to places, exactly when it is printable and
every `fallthrough` in it has the keyword for its text. One half is what `Written` shows of
writing, the other what `ReadBack` shows of reading.
-/

namespace SwitchMarkup

variable {π : Type}

/-- The printable templates are those that are read back from their canonical source. -/
theorem Template.exists_parse_print_iff {t : Template π} :
    (∃ u, parse t.print = .ok u ∧ u.shape = t.shape) ↔ t.Printable ∧ Template.Spelled t := by
  have hend : ReadsBody {} 0 true [] [] [] := (readsBody_iff stops_nil).2 (.inl ⟨rfl, rfl, rfl⟩)
  rw [exists_parse_eq_ok_iff, Template.print, String.toList_ofList]
  constructor
  · rintro ⟨reads, hreads, hshape⟩
    obtain ⟨hp, hs, -⟩ := Template.printableIn_of_reads rfl t false .fresh 0 0
      (fun _ => by decide) hreads hshape
    exact ⟨hp, hs⟩
  · rintro ⟨hp, hs⟩
    exact Template.exists_reads_write t false .fresh 0 0 (by decide) hp hs hend

/-- A printable template, whatever its places are, is read back from its canonical source, if the
text of each `fallthrough` is its keyword. -/
theorem Template.parse_print (t : Template π) (hprintable : t.Printable)
    (hspelled : Template.Spelled t) : ∃ u, parse t.print = .ok u ∧ u.shape = t.shape :=
  Template.exists_parse_print_iff.2 ⟨hprintable, hspelled⟩

/-- Text that would begin a clause at the start of a line, and a `fallthrough` behind a switch. -/
theorem Template.parse_print_nested :
    ∃ t : Template Unit,
      t.print = "\x7b n \x7dcase study\nswitch \x7b\n\tcase 1, f(2):\n\t\tswitch x \x7b\n\t\t\x7d\n" ++
        "\t\tfallthrough\n\tdefault:\n\x7d\n" ∧
      t.Printable ∧ Template.Spelled t ∧ ∃ u, parse t.print = .ok u ∧ u.shape = t.shape := by
  refine ⟨[
    .output ⟨"n", ⟨(), ()⟩⟩,
    .text ⟨"case study", ⟨(), ()⟩⟩,
    .switch ⟨"", ⟨(), ()⟩⟩ [
      ⟨.case ⟨"1, f(2)", ⟨(), ()⟩⟩, [
        .switch ⟨"x", ⟨(), ()⟩⟩ [] ⟨(), ()⟩,
        .fallthrough ⟨"fallthrough", ⟨(), ()⟩⟩]⟩,
      ⟨.default ⟨(), ()⟩, []⟩] ⟨(), ()⟩], by decide +kernel, ?hp, ?hs, Template.parse_print _ ?hp ?hs⟩
  case hp => decide +kernel
  case hs => exact ⟨trivial, trivial, ⟨⟨trivial, rfl, trivial⟩, trivial, trivial⟩, trivial⟩

/-- A switch whose `fallthrough` has a text that none has in a source. -/
def misspelled : Template Unit :=
  [.switch ⟨"", ⟨(), ()⟩⟩ [
    ⟨.case ⟨"1", ⟨(), ()⟩⟩, [.fallthrough ⟨"x", ⟨(), ()⟩⟩]⟩,
    ⟨.default ⟨(), ()⟩, []⟩] ⟨(), ()⟩]

/-- The keyword is printed for any text, so another text is not read back. -/
theorem parse_print_misspelled :
    misspelled.Printable ∧ ¬∃ u, parse misspelled.print = .ok u ∧ u.shape = misspelled.shape := by
  refine ⟨by decide +kernel, ?_⟩
  rw [Template.exists_parse_print_iff]
  rintro ⟨-, ⟨⟨hvalue, -⟩, -⟩, -⟩
  have hspelled : "x" = "fallthrough" := hvalue
  exact absurd hspelled (by decide)

end SwitchMarkup

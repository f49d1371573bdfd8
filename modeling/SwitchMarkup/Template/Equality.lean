import Mathlib.Control.Monad.Basic
import SwitchMarkup.Template.Basic

/-!
# Equality of templates is decidable

Two templates are compared node by node, places included. With that, what a parse of a given source
comes to can be checked by evaluation.
-/

namespace SwitchMarkup

variable {π : Type} [DecidableEq π]

mutual

/-- Nodes of one kind are compared part by part, and nodes of two kinds are different. -/
def Node.decEq : (x y : Node π) → Decidable (x = y)
  | .text a, .text b => decidable_of_iff (a = b) (by simp)
  | .output a, .output b => decidable_of_iff (a = b) (by simp)
  | .fallthrough a, .fallthrough b => decidable_of_iff (a = b) (by simp)
  | .switch a cs s, .switch b ds t =>
    have := Clause.decEqAll cs ds
    decidable_of_iff (a = b ∧ cs = ds ∧ s = t) (by simp)
  | .text _, .output _ | .text _, .fallthrough _ | .text _, .switch .. => isFalse nofun
  | .output _, .text _ | .output _, .fallthrough _ | .output _, .switch .. => isFalse nofun
  | .fallthrough _, .text _ | .fallthrough _, .output _ | .fallthrough _, .switch .. =>
    isFalse nofun
  | .switch .., .text _ | .switch .., .output _ | .switch .., .fallthrough _ => isFalse nofun

/-- Clauses are compared by their headers and their bodies. -/
def Clause.decEq : (x y : Clause π) → Decidable (x = y)
  | ⟨header, children⟩, ⟨header', children'⟩ =>
    have := Template.decEq children children'
    decidable_of_iff (header = header' ∧ children = children') (by simp)

/-- Templates are compared node by node. -/
def Template.decEq : (x y : List (Node π)) → Decidable (x = y)
  | [], [] => isTrue rfl
  | [], _ :: _ | _ :: _, [] => isFalse nofun
  | node :: nodes, node' :: nodes' =>
    have := Node.decEq node node'
    have := Template.decEq nodes nodes'
    decidable_of_iff (node = node' ∧ nodes = nodes') (by simp)

/-- Lists of clauses are compared clause by clause. -/
def Clause.decEqAll : (x y : List (Clause π)) → Decidable (x = y)
  | [], [] => isTrue rfl
  | [], _ :: _ | _ :: _, [] => isFalse nofun
  | clause :: clauses, clause' :: clauses' =>
    have := Clause.decEq clause clause'
    have := Clause.decEqAll clauses clauses'
    decidable_of_iff (clause = clause' ∧ clauses = clauses') (by simp)

end

instance : DecidableEq (Node π) := Node.decEq

instance : DecidableEq (Clause π) := Clause.decEq

end SwitchMarkup

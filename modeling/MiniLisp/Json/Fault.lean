/-!
# Faults of a JSON text

What can be wrong with a JSON text that is to be read into a type.
-/

namespace MiniLisp.Json

/-- Why a JSON text is refused. -/
inductive Fault where
  /-- The text is not JSON, or goes on after the value. -/
  | malformed
  /-- The text ends before the value does. -/
  | truncated
  /-- A value is not of the kind that is wanted at its place. -/
  | mismatched
deriving DecidableEq, Repr

def Fault.category : Fault → String
  | .malformed => "syntax"
  | .truncated => "eof"
  | .mismatched => "data"

theorem bind_eq_ok {x : Except Fault α} {f : α → Except Fault β} {b : β} :
    x >>= f = .ok b ↔ ∃ a, x = .ok a ∧ f a = .ok b := by
  cases x <;> simp [bind, Except.bind]

theorem pure_eq_ok {a b : α} : (pure a : Except Fault α) = .ok b ↔ a = b := by
  simp [pure, Except.pure]

end MiniLisp.Json

import Mathlib.Data.List.Forall2
import MiniLisp.Proofs.Run.Basic

/-!
# Steady runs

What a run gives in every state with some environment, if it leaves the environment as it is
(`Gives`). The rules for the forms and the calls say how much of the budget each of them takes, so
that they tell exactly which budgets are too small.
-/

namespace MiniLisp

/-- The end of a run with a result, in a state. -/
def ended : Except Fault α → State → EStateM.Result Fault State α
  | .ok a, s => .ok a s
  | .error e, s => .error e s

/-- In each state with this environment the run has this result, and the environment stays. -/
def Gives (environment : Environment) (x : Run α) (result : Except Fault α) : Prop :=
  ∀ s : State, s.environment = environment →
    ∃ t : State, t.environment = environment ∧ x s = ended result t

namespace Gives

variable {environment : Environment}

/-! ## Sequences -/

section Sequences

variable {x : Run α} {f : α → Run β} {a : α} {result : Except Fault β} {e : Fault}

theorem pure (a : α) : Gives environment (pure a) (.ok a) :=
  fun s hs => ⟨s, hs, rfl⟩

theorem throw (e : Fault) : Gives environment (throw e : Run α) (.error e) :=
  fun s hs => ⟨s, hs, rfl⟩

theorem report (event : Event) : Gives environment (Run.report event) (.ok ()) :=
  fun s hs => ⟨s.reported event, hs, rfl⟩

theorem andThen (hx : Gives environment x (.ok a)) (hf : Gives environment (f a) result) :
    Gives environment (x >>= f) result := by
  intro s hs
  obtain ⟨t, ht, hxt⟩ := hx s hs
  obtain ⟨u, hu, hfu⟩ := hf t ht
  refine ⟨u, hu, ?_⟩
  rw [Run.andThen_apply, hxt]
  exact hfu

theorem andThen_error (hx : Gives environment x (.error e)) :
    Gives environment (x >>= f) (.error e) := by
  intro s hs
  obtain ⟨t, ht, hxt⟩ := hx s hs
  refine ⟨t, ht, ?_⟩
  rw [Run.andThen_apply, hxt]
  rfl

theorem mapM {f : α → Run β} {l : List α} {bs : List β}
    (h : List.Forall₂ (fun a b => Gives environment (f a) (.ok b)) l bs) :
    Gives environment (l.mapM f) (.ok bs) := by
  induction h with
  | nil => exact .pure []
  | cons ha _ ih =>
    rw [List.mapM_cons]
    exact ha.andThen (ih.andThen (.pure _))

/-- The first item that fails ends the loop. -/
theorem mapM_error {f : α → Run β} {l : List α} {bs : List β} {a : α} {more : List α} {e : Fault}
    (h : List.Forall₂ (fun a b => Gives environment (f a) (.ok b)) l bs)
    (ha : Gives environment (f a) (.error e)) :
    Gives environment ((l ++ a :: more).mapM f) (.error e) := by
  rw [List.mapM_append, List.mapM_cons]
  exact (mapM h).andThen ha.andThen_error.andThen_error

end Sequences

/-! ## Evaluation -/

variable {config : Config}

theorem overflow (tree : Sexp) :
    Gives environment (evaluate config 0 tree) (.error (.overflow config.maxDepth)) :=
  fun s hs => ⟨s, hs, rfl⟩

theorem symbol {name : String} {v : Value} (h : environment.get? name = some v) (budget : Nat) :
    Gives environment (evaluate config (budget + 1) (.atom (.symbol name))) (.ok v) :=
  fun s hs => ⟨s, hs, evaluate_symbol (by rw [hs, h])⟩

theorem number (x : Float) (budget : Nat) :
    Gives environment (evaluate config (budget + 1) (.atom (.number x))) (.ok (.number x)) :=
  fun s hs => ⟨s, hs, rfl⟩

section Applications

variable {name : String} {f : Procedure} {operands : List Sexp} {budget : Nat}
  (hform : (Sexp.atom (.symbol name)).form? = none)

include hform

/-- An application needs a budget for its head and operands. -/
theorem application_overflow {budget : Nat} (h : budget < 2) :
    Gives environment (evaluate config budget (.expression (.atom (.symbol name) :: operands)))
      (.error (.overflow config.maxDepth)) := by
  match budget, h with
  | 0, _ => exact .overflow _
  | 1, _ =>
    intro s hs
    refine ⟨s, hs, ?_⟩
    rw [evaluate, evaluateExpression_application hform]
    rfl

/-- A name that is bound to a procedure is applied to its operands. -/
theorem application (hf : environment.get? name = some (.function f)) {result : Except Fault Value}
    (h : Gives environment (operands.mapM (evaluate config (budget + 1)) >>=
      call config (evaluate config (budget + 1)) f) result) :
    Gives environment
      (evaluate config (budget + 2) (.expression (.atom (.symbol name) :: operands))) result := by
  intro s hs
  obtain ⟨t, ht, hrun⟩ := h s hs
  refine ⟨t, ht, ?_⟩
  rw [evaluate_application hform (evaluate_symbol (by rw [hs, hf])), hrun]

end Applications

/-- A form `if` gives what the operand gives that its test leads to. -/
theorem conditional {test yes no : Sexp} {b : Bool} {budget : Nat} {result : Except Fault Value}
    (htest : Gives environment (evaluate config budget test) (.ok (.boolean b)))
    (h : Gives environment (evaluate config budget (if b then yes else no)) result) :
    Gives environment
      (evaluate config (budget + 1) (.expression [.atom (.symbol "if"), test, yes, no])) result := by
  intro s hs
  rw [evaluate, evaluateExpression_form rfl]
  refine htest.andThen ?_ (s.reported (.entered .conditional)) hs
  cases b <;> exact h

theorem conditional_error {test yes no : Sexp} {budget : Nat} {e : Fault}
    (htest : Gives environment (evaluate config budget test) (.error e)) :
    Gives environment
      (evaluate config (budget + 1) (.expression [.atom (.symbol "if"), test, yes, no]))
      (.error e) := by
  intro s hs
  rw [evaluate, evaluateExpression_form rfl]
  exact htest.andThen_error (s.reported (.entered .conditional)) hs

/-! ## Calls -/

variable {eval : Sexp → Run Value}

theorem operation {op : Operation} {args : List Value} {v : Value} (h : op.compute args = .ok v) :
    Gives environment (call config eval (.primitive (.operation op)) args) (.ok v) := by
  rw [call_operation, h]
  exact (report _).andThen (.pure v)

theorem declared {id : Nat} {name : String} {parameters : List String} {template : Sexp}
    {args : List Value} {result : Except Fault Value} (hlength : args.length = parameters.length)
    (h : Gives environment (eval (template.filled args)) result) :
    Gives environment (call config eval (.declared id name parameters template) args) result := by
  rw [call_declared, if_pos hlength]
  exact (report _).andThen h

/-! ## Sessions -/

theorem session {s : Session} {x : Run α} {result : Except Fault α}
    (h : Gives s.environment x result) : (s.run x).1 = result := by
  obtain ⟨t, -, hx⟩ := h s.state rfl
  cases result with
  | ok a => rw [Session.run_of_ok hx]
  | error e => rw [Session.run_of_error hx]

end Gives

end MiniLisp

import Mathlib.Logic.Relation
import MiniLisp.Proofs.Run.Basic

/-!
# A machine with a stack

The evaluator again, as a machine that takes one step at a time. What `evaluate` and `call` leave to
the recursion of the host, the machine has on a stack: each evaluation and each call that has begun
and not ended is a frame of it, and so is all that waits for a value. It counts the open evaluations
itself and compares the count with the limit, so nothing in its definition bounds how long it runs.
-/

namespace MiniLisp

/-- What waits for a value. -/
inductive Frame where
  /-- An evaluation that has begun. -/
  | evaluation
  /-- A call that has begun. -/
  | activation (f : Procedure) (args : List Value)
  /-- The rest of a conditional, waiting for its test. -/
  | branches (yes no : Sexp)
  /-- An assignment that waits for the value of its operand. -/
  | assignment (form : Form) (name : String)
  /-- The operands of an application, waiting for its head. -/
  | operator (operands : List Sexp)
  /-- An application with its function and the arguments known so far, waiting for the next one. -/
  | arguments (f : Procedure) (known : List Value) (rest : List Sexp)
  /-- A call of `map` with the results known so far, waiting for the next one. -/
  | rows (f : Procedure) (known : List Value) (rest : List (List Value))

/-- What a machine is about to do. -/
inductive Control where
  | evaluate (tree : Sexp)
  | call (f : Procedure) (args : List Value)
  | returned (v : Value)
  | failed (fault : Fault)

structure Machine where
  control : Control
  /-- What waits, the innermost first. -/
  stack : List Frame
  /-- How many evaluations are open, counted from wherever the count was at the start. -/
  depth : Nat
  state : State

namespace Machine

/-- A machine about to hand on how a run has ended. -/
def ended (r : EStateM.Result Fault State Value) (stack : List Frame) (depth : Nat) : Machine :=
  match r with
  | .ok v s => ⟨.returned v, stack, depth, s⟩
  | .error e s => ⟨.failed e, stack, depth, s⟩

section Begin

variable (stack : List Frame) (depth : Nat) (s : State)

/-- Evaluates the operands that are left, then calls the function. -/
def beginArguments (f : Procedure) (known : List Value) : List Sexp → Machine
  | [] => ⟨.call f known, stack, depth, s⟩
  | t :: rest => ⟨.evaluate t, .arguments f known rest :: stack, depth, s⟩

/-- Calls the function with the rows that are left, then lists the results. -/
def beginRows (f : Procedure) (known : List Value) : List (List Value) → Machine
  | [] => ⟨.returned (.list known), stack, depth, s⟩
  | row :: rest => ⟨.call f row, .rows f known rest :: stack, depth, s⟩

def beginAssignment (form : Form) : List Sexp → Machine
  | [target, operand] =>
    match expectSymbol form target with
    | .ok name => ⟨.evaluate operand, .assignment form name :: stack, depth, s⟩
    | .error m => ⟨.failed (.misuse m), stack, depth, s⟩
  | operands => ⟨.failed (.misuse (.operandCount form 2 operands.length)), stack, depth, s⟩

def beginForm : Form → List Sexp → Machine
  | .conditional, [test, yes, no] => ⟨.evaluate test, .branches yes no :: stack, depth, s⟩
  | .conditional, operands =>
    ⟨.failed (.misuse (.operandCount .conditional 3 operands.length)), stack, depth, s⟩
  | .define, operands => beginAssignment stack depth s .define operands
  | .set, operands => beginAssignment stack depth s .set operands
  | .function, operands => ended (evaluateDeclaration operands s) stack depth

def beginExpression : List Sexp → Machine
  | [] => ⟨.returned (.list []), stack, depth, s⟩
  | head :: operands =>
    match head.form? with
    | some form => beginForm stack depth (s.reported (.entered form)) form operands
    | none => ⟨.evaluate head, .operator operands :: stack, depth, s⟩

/-- Begins an evaluation: one more is open, which may be one too many. -/
def beginEvaluation (config : Config) (tree : Sexp) : Machine :=
  if config.maxDepth < depth + 1 then
    ⟨.failed (.overflow config.maxDepth), .evaluation :: stack, depth + 1, s⟩
  else
    match tree with
    | .atom v => ended (evaluateAtom v s) (.evaluation :: stack) (depth + 1)
    | .expression items => beginExpression (.evaluation :: stack) (depth + 1) s items
    | .placeholder index =>
      ⟨.failed (.misuse (.unfilled index)), .evaluation :: stack, depth + 1, s⟩

/-- What a call does once it is reported. -/
def beginBody (config : Config) (f : Procedure) (args : List Value) : Machine :=
  match f with
  | .declared _ name parameters template =>
    if args.length = parameters.length then
      ⟨.evaluate (template.filled args), stack, depth, s⟩
    else
      ⟨.failed (.misuse (.argumentCount name parameters.length args.length)), stack, depth, s⟩
  | .primitive (.operation op) => ended (Run.ofExcept (op.compute args) s) stack depth
  | .primitive .println => ended (printArguments config args s) stack depth
  | .primitive .apply =>
    match applyCall args with
    | .ok (g, arguments) => ⟨.call g arguments, stack, depth, s⟩
    | .error m => ⟨.failed (.misuse m), stack, depth, s⟩
  | .primitive .map =>
    match mapCalls args with
    | .ok (g, calls) => beginRows stack depth s g [] calls
    | .error m => ⟨.failed (.misuse m), stack, depth, s⟩

def beginCall (config : Config) (f : Procedure) (args : List Value) : Machine :=
  beginBody (.activation f args :: stack) depth (s.reported (.called f.name args)) config f args

/-- Hands a value to the frame that waits for it. -/
def resume (v : Value) : Frame → Machine
  | .evaluation => ⟨.returned v, stack, depth - 1, s⟩
  | .activation _ _ => ⟨.returned v, stack, depth, s⟩
  | .branches yes no =>
    match v with
    | .boolean true => ⟨.evaluate yes, stack, depth, s⟩
    | _ => ⟨.evaluate no, stack, depth, s⟩
  | .assignment form name => ended ((do assignAs form name v; return .none : Run Value) s) stack depth
  | .operator operands =>
    match v with
    | .function f => beginArguments stack depth s f [] operands
    | v => ⟨.failed (.notCallable v), stack, depth, s⟩
  | .arguments f known rest => beginArguments stack depth s f (known ++ [v]) rest
  | .rows f known rest => beginRows stack depth s f (known ++ [v]) rest

/-- Takes a fault past a frame. -/
def abandon (e : Fault) : Frame → Machine
  | .evaluation => ⟨.failed e, stack, depth - 1, s⟩
  | _ => ⟨.failed e, stack, depth, s⟩

end Begin

/-- The next step, unless the machine has ended. -/
def step (config : Config) (m : Machine) : Option Machine :=
  match m.control, m.stack with
  | .evaluate tree, stack => some (beginEvaluation stack m.depth m.state config tree)
  | .call f args, stack => some (beginCall stack m.depth m.state config f args)
  | .returned v, frame :: stack => some (resume stack m.depth m.state v frame)
  | .failed e, frame :: stack => some (abandon stack m.depth m.state e frame)
  | .returned _, [] | .failed _, [] => none

/-- The machine after some steps, or where it has ended before. -/
def run (config : Config) (m : Machine) : Nat → Machine
  | 0 => m
  | count + 1 =>
    match m.step config with
    | some next => next.run config count
    | none => m

/-! ## Reaching -/

/-- From one machine another one is reached, in any number of steps. -/
def Reaches (config : Config) : Machine → Machine → Prop :=
  Relation.ReflTransGen fun m next => step config m = some next

namespace Reaches

variable {config : Config} {m n : Machine}

theorem refl (m : Machine) : Reaches config m m :=
  Relation.ReflTransGen.refl

/-- What the next step reaches is reached. -/
theorem step {next : Machine} (h : m.step config = some next) (rest : Reaches config next n) :
    Reaches config m n :=
  Relation.ReflTransGen.head h rest

theorem trans {o : Machine} (h : Reaches config m n) (h' : Reaches config n o) :
    Reaches config m o :=
  Relation.ReflTransGen.trans h h'

/-- A machine that has ended reaches itself only. -/
theorem eq_of_step_eq_none (h : Reaches config m n) (hend : m.step config = none) : m = n := by
  rcases Relation.ReflTransGen.cases_head h with heq | ⟨next, hnext, -⟩
  · exact heq
  · cases hend.symm.trans hnext

/-- All that is reached comes to where the machine ends. -/
theorem to_end {last : Machine} (h : Reaches config m n) (hlast : Reaches config m last)
    (hend : last.step config = none) : Reaches config n last := by
  have hunique : Relator.RightUnique fun a b : Machine => Machine.step config a = some b :=
    fun a b c hb hc => Option.some.inj (hb.symm.trans hc)
  rcases Relation.ReflTransGen.total_of_right_unique hunique h hlast with h | h
  · exact h
  · rw [eq_of_step_eq_none h hend]
    exact refl _

theorem exists_run (h : Reaches config m n) : ∃ count, m.run config count = n := by
  induction h using Relation.ReflTransGen.head_induction_on with
  | refl => exact ⟨0, rfl⟩
  | head hstep _ ih =>
    obtain ⟨count, hcount⟩ := ih
    exact ⟨count + 1, by rw [run, hstep]; exact hcount⟩

end Reaches

theorem reaches_run (config : Config) (m : Machine) (count : Nat) :
    Reaches config m (m.run config count) := by
  induction count generalizing m with
  | zero => exact .refl m
  | succ count ih =>
    rw [run]
    cases hm : m.step config with
    | none => exact .refl m
    | some next => exact .step hm (ih next)

theorem run_add (config : Config) (m : Machine) (count more : Nat) :
    m.run config (count + more) = (m.run config count).run config more := by
  induction count generalizing m with
  | zero => rw [Nat.zero_add, run]
  | succ count ih =>
    rw [Nat.succ_add, run, run]
    cases hm : m.step config with
    | some next => exact ih next
    | none =>
      cases more with
      | zero => rfl
      | succ more =>
        rw [run, hm]

/-- A machine that has ended stays as it is. -/
theorem run_of_step_eq_none {config : Config} {m : Machine} (h : m.step config = none)
    (count : Nat) : m.run config count = m := by
  cases count with
  | zero => rfl
  | succ count => rw [run, h]

theorem run_succ_of_step {config : Config} {m next : Machine} {count : Nat}
    (h : (m.run config count).step config = some next) : m.run config (count + 1) = next := by
  rw [run_add, run, h]
  rfl

/-- A property that every step keeps holds after any number of steps. -/
theorem run_invariant {config : Config} {P : Machine → Prop}
    (hstep : ∀ {m next : Machine}, P m → m.step config = some next → P next) {m : Machine} (h : P m)
    (count : Nat) : P (m.run config count) := by
  induction count generalizing m with
  | zero => exact h
  | succ count ih =>
    rw [run]
    cases hm : m.step config with
    | none => exact h
    | some next => exact ih (hstep h hm)

end Machine

end MiniLisp

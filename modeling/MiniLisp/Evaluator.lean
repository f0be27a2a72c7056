import MiniLisp.Primitive.HigherOrder
import MiniLisp.Run
import MiniLisp.Template

/-!
# Evaluation

A tree is evaluated within a budget of nested evaluations. Each evaluation of a tree takes one off
the budget of the evaluations inside it, so that the budget bounds the recursion; an evaluation
with nothing left of the budget stops the run, whatever the tree.

The rules for forms and calls are given for any way `eval` of evaluating the trees inside, and
`evaluate` ties them together. Calls that primitives make among themselves, without evaluating a
tree, take nothing off the budget; they end because the argument values get smaller.
-/

namespace MiniLisp

/-- The value of an atom: a symbol stands for what it is bound to, all else for itself. -/
def evaluateAtom : Value → Run Value
  | .symbol name => Run.lookup name
  | v => pure v

def call (config : Config) (eval : Sexp → Run Value) (f : Procedure) (args : List Value) :
    Run Value := do
  Run.report (.called f.name args)
  match f with
  | .declared _ name parameters template =>
    if args.length = parameters.length then
      eval (template.filled args)
    else
      throw (.misuse (.argumentCount name parameters.length args.length))
  | .primitive (.operation op) => Run.ofExcept (op.compute args)
  | .primitive .println =>
    Run.printLine config (← Run.ofExcept (printedLine args))
    return .none
  | .primitive .apply =>
    match h : applyCall args with
    | .error misuse => throw (.misuse misuse)
    | .ok (g, arguments) =>
      have := sizes_lt_of_applyCall h
      call config eval g arguments
  | .primitive .map =>
    match h : mapCalls args with
    | .error misuse => throw (.misuse misuse)
    | .ok (g, calls) =>
      let results ← calls.attach.mapM fun row =>
        have := sizes_lt_of_mapCalls h row.2
        call config eval g row.1
      return .list results
termination_by Value.sizes args

theorem mapM_attach {m : Type → Type} [Monad m] [LawfulMonad m] {α β : Type} (l : List α)
    (f : α → m β) : (l.attach.mapM fun a => f a.1) = l.mapM f := by
  induction l with
  | nil => rfl
  | cons a l ih => simp [List.attach_cons, List.mapM_cons, List.mapM_map]

/-- A call of `map` calls its function once for each row of the lists. -/
theorem call_map (config : Config) (eval : Sexp → Run Value) (args : List Value) :
    call config eval (.primitive .map) args = (do
      Run.report (.called Primitive.map.name args)
      match mapCalls args with
      | .error misuse => throw (.misuse misuse)
      | .ok (g, calls) => return .list (← calls.mapM (call config eval g))) := by
  rw [call]
  congr 1
  funext _
  split
  · rename_i h
    simp [h]
  · rename_i g calls h
    simp only [h, ← mapM_attach calls]

/-- A call of `apply` calls its function with the items of the list. -/
theorem call_apply (config : Config) (eval : Sexp → Run Value) (args : List Value) :
    call config eval (.primitive .apply) args = (do
      Run.report (.called Primitive.apply.name args)
      match applyCall args with
      | .error misuse => throw (.misuse misuse)
      | .ok (g, arguments) => call config eval g arguments) := by
  rw [call]
  congr 1
  funext _
  split
  · rename_i h
    simp [h]
  · rename_i h
    simp [h]

/-- A tree that has to be a name. -/
def expectSymbol (form : Form) : Sexp → Except Misuse String
  | .atom (.symbol name) => .ok name
  | tree => .error (.notASymbol form tree)

/-- A tree that has to be a list of names. -/
def expectParameters : Sexp → Except Misuse (List String)
  | .expression items => items.mapM (expectSymbol .function)
  | tree => .error (.notParameters tree)

/-- The form `if` evaluates its test and then one of the two others; anything but true counts as
false. -/
def evaluateConditional (eval : Sexp → Run Value) : List Sexp → Run Value
  | [test, yes, no] => do
    match ← eval test with
    | .boolean true => eval yes
    | _ => eval no
  | operands => throw (.misuse (.operandCount .conditional 3 operands.length))

/-- The forms `define` and `set` bind a name to the value of the operand. -/
def evaluateAssignment (eval : Sexp → Run Value) (form : Form) : List Sexp → Run Value
  | [target, operand] => do
    let name ← Run.ofExcept (expectSymbol form target)
    let value ← eval operand
    Run.report (.assigned form name)
    Run.bind name value
    return .none
  | operands => throw (.misuse (.operandCount form 2 operands.length))

/-- The form `function` binds a name to a procedure with these parameters and this body. -/
def evaluateDeclaration : List Sexp → Run Value
  | [target, formals, body] => do
    let name ← Run.ofExcept (expectSymbol .function target)
    let parameters ← Run.ofExcept (expectParameters formals)
    let template := body.abstracted parameters
    let f ← Run.declare name parameters template
    Run.report (.declared name parameters template)
    Run.bind name (.function f)
    return .none
  | operands => throw (.misuse (.operandCount .function 3 operands.length))

def evaluateForm (eval : Sexp → Run Value) : Form → List Sexp → Run Value
  | .conditional, operands => evaluateConditional eval operands
  | .define, operands => evaluateAssignment eval .define operands
  | .set, operands => evaluateAssignment eval .set operands
  | .function, operands => evaluateDeclaration operands

/-- The form that an expression with this head is, if it is one. -/
def Sexp.form? : Sexp → Option Form
  | .atom (.symbol name) => Form.ofName? name
  | _ => none

/-- The value of an expression: a form by its own rule, any other an application of its head to
the values of the rest, from left to right. -/
def evaluateExpression (config : Config) (eval : Sexp → Run Value) : List Sexp → Run Value
  | [] => pure (.list [])
  | head :: operands =>
    match head.form? with
    | some form => do
      Run.report (.entered form)
      evaluateForm eval form operands
    | none => do
      match ← eval head with
      | .function f => call config eval f (← operands.mapM eval)
      | v => throw (.notCallable v)

/-- The value of a tree, within a budget of nested evaluations. -/
def evaluate (config : Config) : (budget : Nat) → Sexp → Run Value
  | 0, _ => throw (.overflow config.maxDepth)
  | _ + 1, .atom v => evaluateAtom v
  | budget + 1, .expression items => evaluateExpression config (evaluate config budget) items
  | _ + 1, .placeholder index => throw (.misuse (.unfilled index))

end MiniLisp

import MiniLisp.Session

/-!
# Runs as functions of a state

What each step of a run gives for a state and leaves of it. Proofs about runs use these equations
and `Run.andThen_apply` in place of the definitions of the steps.
-/

namespace MiniLisp

/-- The state in which a run ends. -/
def endState : EStateM.Result Fault State α → State
  | .ok _ s => s
  | .error _ s => s

@[simp] theorem endState_ok (a : α) (s : State) :
    endState (.ok a s : EStateM.Result Fault State α) = s := rfl

@[simp] theorem endState_error (e : Fault) (s : State) :
    endState (.error e s : EStateM.Result Fault State α) = s := rfl

/-- A state with one more event. -/
def State.reported (s : State) (e : Event) : State :=
  { s with journal := s.journal.push e }

namespace Run

/-- Two computations in a row: the second one starts where the first one ends, unless that
fails. -/
theorem andThen_apply (x : Run α) (f : α → Run β) (s : State) :
    (x >>= f) s = match x s with
      | .ok a t => f a t
      | .error e t => .error e t := by
  change EStateM.bind x f s = _
  unfold EStateM.bind
  cases x s <;> rfl

theorem mapM_cons_apply (f : α → Run β) (a : α) (l : List α) (s : State) :
    (a :: l).mapM f s = match f a s with
      | .ok b t => match l.mapM f t with
        | .ok bs u => .ok (b :: bs) u
        | .error e u => .error e u
      | .error e t => .error e t := by
  rw [List.mapM_cons, andThen_apply]
  cases f a s with
  | error e t => rfl
  | ok b t =>
    dsimp only
    rw [andThen_apply]
    cases l.mapM f t <;> rfl

/-- A loop that fails has gone through some items and fails at the next one. -/
theorem mapM_eq_error_iff {f : α → Run β} {l : List α} {s t : State} {e : Fault} :
    l.mapM f s = .error e t ↔ ∃ before a after bs u, l = before ++ a :: after ∧
      before.mapM f s = .ok bs u ∧ f a u = .error e t := by
  constructor
  · intro h
    induction l generalizing s with
    | nil => cases h
    | cons a l ih =>
      rw [mapM_cons_apply] at h
      cases ha : f a s with
      | error e' u =>
        rw [ha] at h
        cases h
        exact ⟨[], a, l, [], s, rfl, rfl, ha⟩
      | ok b u =>
        rw [ha] at h
        cases hl : l.mapM f u with
        | ok bs v =>
          simp only [hl] at h
          cases h
        | error e' v =>
          simp only [hl] at h
          cases h
          obtain ⟨before, c, after, bs, w, rfl, hbefore, hc⟩ := ih hl
          refine ⟨a :: before, c, after, b :: bs, w, rfl, ?_, hc⟩
          rw [mapM_cons_apply, ha]
          simp only [hbefore]
  · rintro ⟨before, a, after, bs, u, rfl, hbefore, ha⟩
    rw [List.mapM_append, andThen_apply, hbefore]
    dsimp only
    rw [andThen_apply, mapM_cons_apply, ha]

@[simp] theorem get_apply (s : State) : (get : Run State) s = .ok s s := rfl

@[simp] theorem modify_apply (f : State → State) (s : State) :
    (modify f : Run Unit) s = .ok () (f s) := rfl

theorem report_apply (e : Event) (s : State) : report e s = .ok () (s.reported e) := rfl

theorem lookup_apply (name : String) (s : State) :
    lookup name s = match s.environment.get? name with
      | some v => .ok v s
      | none => .error (.undefined name) s := by
  unfold lookup
  rw [andThen_apply, get_apply]
  dsimp only
  cases s.environment.get? name <;> rfl

theorem bind_apply (name : String) (value : Value) (s : State) :
    bind name value s = .ok () { s.reported (.bound name value) with
      environment := s.environment.define name value } := by
  unfold bind
  rw [andThen_apply, report_apply]
  rfl

theorem declare_apply (name : String) (parameters : List String) (template : Sexp) (s : State) :
    declare name parameters template s =
      .ok (.declared s.declarations name parameters template)
        { s with declarations := s.declarations + 1 } := by
  unfold declare
  rw [andThen_apply, get_apply]
  dsimp only
  rw [andThen_apply, modify_apply]
  rfl

theorem printLine_apply (config : Config) (line : String) (s : State) :
    printLine config line s =
      if config.echo then
        match s.output.fault? line with
        | none => .ok () { s.reported (.printed line) with output := s.output.writeLine line }
        | some fault =>
          .error (.output fault) { s.reported (.printed line) with
            output := s.output.writeLine line }
      else .ok () (s.reported (.printed line)) := by
  unfold printLine
  rw [andThen_apply, report_apply]
  dsimp only
  cases config.echo with
  | false => rfl
  | true =>
    rw [if_pos rfl, if_pos rfl, andThen_apply, get_apply]
    dsimp only
    rw [andThen_apply, modify_apply]
    change (match s.output.fault? line with | none => _ | some fault => _ : Run Unit) _ = _
    cases s.output.fault? line <;> rfl

/-- Printing a line reports it and changes no more than the output, and it fails for the output or
not at all. -/
theorem printLine_cases (config : Config) (line : String) (s : State) :
    ∃ output, printLine config line s = .ok () { s.reported (.printed line) with output } ∨
      ∃ fault, printLine config line s =
        .error (.output fault) { s.reported (.printed line) with output } := by
  rw [printLine_apply]
  split
  · split
    · exact ⟨_, .inl rfl⟩
    · exact ⟨_, .inr ⟨_, rfl⟩⟩
  · exact ⟨s.output, .inl rfl⟩

end Run

/-! ## Forms -/

theorem Form.eq_name_of_ofName? {n : String} {form : Form} (h : Form.ofName? n = some form) :
    n = form.name := by
  unfold Form.ofName? at h
  split at h <;> cases h <;> rfl

/-- The head of a form is its name. -/
theorem Sexp.eq_of_form? {head : Sexp} {form : Form} (h : head.form? = some form) :
    head = .atom (.symbol form.name) := by
  unfold Sexp.form? at h
  split at h
  · rw [Form.eq_name_of_ofName? h]
  · cases h

/-- The part of an assignment that has effects. -/
def assignAs (form : Form) (name : String) (value : Value) : Run Unit := do
  Run.report (.assigned form name)
  Run.bind name value

/-- The part of a declaration that has effects. -/
def declareAs (name : String) (parameters : List String) (template : Sexp) : Run Unit := do
  let f ← Run.declare name parameters template
  Run.report (.declared name parameters template)
  Run.bind name (.function f)

theorem assignAs_apply (form : Form) (name : String) (value : Value) (s : State) :
    assignAs form name value s =
      .ok () { (s.reported (.assigned form name)).reported (.bound name value) with
        environment := s.environment.define name value } := by
  unfold assignAs
  rw [Run.andThen_apply, Run.report_apply]
  dsimp only
  rw [Run.bind_apply]
  rfl

theorem declareAs_apply (name : String) (parameters : List String) (template : Sexp) (s : State) :
    declareAs name parameters template s =
      let value := Value.function (.declared s.declarations name parameters template)
      .ok () { (s.reported (.declared name parameters template)).reported (.bound name value) with
        environment := s.environment.define name value
        declarations := s.declarations + 1 } := by
  unfold declareAs
  rw [Run.andThen_apply, Run.declare_apply]
  dsimp only
  rw [Run.andThen_apply, Run.report_apply]
  dsimp only
  rw [Run.bind_apply]
  rfl

theorem evaluateConditional_of_length {eval : Sexp → Run Value} {operands : List Sexp}
    (h : operands.length ≠ 3) :
    evaluateConditional eval operands =
      throw (.misuse (.operandCount .conditional 3 operands.length)) := by
  match operands with
  | [_, _, _] => exact absurd rfl h
  | [] | [_] | [_, _] | _ :: _ :: _ :: _ :: _ => rfl

theorem evaluateAssignment_eq (eval : Sexp → Run Value) (form : Form) (target operand : Sexp) :
    evaluateAssignment eval form [target, operand] = (do
      let name ← Run.ofExcept (expectSymbol form target)
      let value ← eval operand
      assignAs form name value
      return .none) := by
  simp only [evaluateAssignment, assignAs, bind_assoc]

/-- An assignment with any other count of operands is refused. -/
theorem evaluateAssignment_of_length {eval : Sexp → Run Value} {form : Form} {operands : List Sexp}
    (h : operands.length ≠ 2) :
    evaluateAssignment eval form operands =
      throw (.misuse (.operandCount form 2 operands.length)) := by
  match operands with
  | [_, _] => exact absurd rfl h
  | [] | [_] | _ :: _ :: _ :: _ => rfl

theorem evaluateDeclaration_eq (target formals body : Sexp) :
    evaluateDeclaration [target, formals, body] = (do
      let name ← Run.ofExcept (expectSymbol .function target)
      let parameters ← Run.ofExcept (expectParameters formals)
      declareAs name parameters (body.abstracted parameters)
      return .none) := by
  simp only [evaluateDeclaration, declareAs, bind_assoc]

theorem evaluateDeclaration_of_length {operands : List Sexp} (h : operands.length ≠ 3) :
    evaluateDeclaration operands =
      throw (.misuse (.operandCount .function 3 operands.length)) := by
  match operands with
  | [_, _, _] => exact absurd rfl h
  | [] | [_] | [_, _] | _ :: _ :: _ :: _ :: _ => rfl

/-! ## Calls -/

section Calls

variable (config : Config) (eval : Sexp → Run Value)

theorem call_declared (id : Nat) (name : String) (parameters : List String) (template : Sexp)
    (args : List Value) :
    call config eval (.declared id name parameters template) args = (do
      Run.report (.called name args)
      if args.length = parameters.length then
        eval (template.filled args)
      else
        throw (.misuse (.argumentCount name parameters.length args.length))) := by
  rw [call]
  rfl

theorem call_operation (op : Operation) (args : List Value) :
    call config eval (.primitive (.operation op)) args = (do
      Run.report (.called op.name args)
      Run.ofExcept (op.compute args)) := by
  rw [call]
  rfl

/-- A call of `println` prints a line and gives none. -/
def printArguments (args : List Value) : Run Value := do
  Run.printLine config (← Run.ofExcept (printedLine args))
  return .none

theorem call_println (args : List Value) :
    call config eval (.primitive .println) args = (do
      Run.report (.called Primitive.println.name args)
      printArguments config args) := by
  rw [call]
  rfl

end Calls

theorem call_operation_apply {config : Config} {eval : Sexp → Run Value} (op : Operation)
    {args : List Value} {s : State} :
    call config eval (.primitive (.operation op)) args s = match op.compute args with
      | .ok v => .ok v (s.reported (.called op.name args))
      | .error m => .error (.misuse m) (s.reported (.called op.name args)) := by
  rw [call_operation, Run.andThen_apply, Run.report_apply]
  cases op.compute args <;> rfl

/-! ## Atoms and expressions -/

theorem evaluate_symbol {config : Config} {budget : Nat} {name : String} {v : Value} {s : State}
    (h : s.environment.get? name = some v) :
    evaluate config (budget + 1) (.atom (.symbol name)) s = .ok v s := by
  rw [evaluate, evaluateAtom, Run.lookup_apply, h]

/-- Any atom but a symbol stands for itself. -/
theorem evaluate_literal {v : Value} (hv : ∀ name, v ≠ .symbol name) (config : Config)
    (budget : Nat) (s : State) : evaluate config (budget + 1) (.atom v) s = .ok v s := by
  cases v with
  | symbol name => exact absurd rfl (hv name)
  | _ => rfl

section Expressions

variable {config : Config} {eval : Sexp → Run Value} {head : Sexp} {operands : List Sexp}

theorem evaluateExpression_form {form : Form} (hform : head.form? = some form) (s : State) :
    evaluateExpression config eval (head :: operands) s =
      evaluateForm eval form operands (s.reported (.entered form)) := by
  rw [evaluateExpression, hform]
  rfl

theorem evaluateExpression_application (hform : head.form? = none) (s : State) :
    evaluateExpression config eval (head :: operands) s = match eval head s with
      | .ok (.function f) t => (operands.mapM eval >>= call config eval f) t
      | .ok v t => .error (.notCallable v) t
      | .error e t => .error e t := by
  rw [evaluateExpression, hform]
  dsimp only
  rw [Run.andThen_apply]
  cases eval head s with
  | error e t => rfl
  | ok v t => cases v <;> rfl

end Expressions

/-- An application whose head comes to a procedure evaluates its operands and calls it. -/
theorem evaluate_application {config : Config} {budget : Nat} {head : Sexp} {f : Procedure}
    {s t : State} (hform : head.form? = none)
    (hhead : evaluate config budget head s = .ok (.function f) t) (operands : List Sexp) :
    evaluate config (budget + 1) (.expression (head :: operands)) s =
      (operands.mapM (evaluate config budget) >>= call config (evaluate config budget) f) t := by
  rw [evaluate, evaluateExpression_application hform, hhead]

/-! ## Runs in a session -/

theorem Session.run_of_ok {s : Session} {x : Run α} {a : α} {t : State}
    (h : x s.state = .ok a t) : s.run x = (.ok a, ⟨s.config, t⟩) := by
  unfold Session.run EStateM.run
  rw [h]

theorem Session.run_of_error {s : Session} {x : Run α} {e : Fault} {t : State}
    (h : x s.state = .error e t) : s.run x = (.error e, ⟨s.config, t⟩) := by
  unfold Session.run EStateM.run
  rw [h]

/-- An operation gives what it computes, whatever the session. -/
theorem Session.call_operation (s : Session) (op : Operation) (args : List Value) :
    (s.call (.primitive (.operation op)) args).1 = (op.compute args).mapError .misuse := by
  have hcall : MiniLisp.call s.config (evaluate s.config s.config.maxDepth)
      (.primitive (.operation op)) args s.state = _ := call_operation_apply op
  rw [Session.call]
  cases hargs : op.compute args with
  | ok v =>
    rw [hargs] at hcall
    rw [run_of_ok hcall]
    rfl
  | error m =>
    rw [hargs] at hcall
    rw [run_of_error hcall]
    rfl

/-- What a session does with a program that it has read. -/
def runProgram (config : Config) (tree : Sexp) : Run Value := do
  Run.report (.parsed tree)
  evaluate config config.maxDepth tree

theorem Session.evaluateText_of_parse {source : String} {tree : Sexp}
    (h : parse source = .ok tree) (s : Session) :
    s.evaluateText source = s.run (runProgram s.config tree) := by
  rw [evaluateText, h]
  rfl

theorem Session.config_run (s : Session) (x : Run α) : (s.run x).2.config = s.config := by
  cases h : x s.state with
  | ok a t => rw [run_of_ok h]
  | error e t => rw [run_of_error h]

theorem Session.state_run (s : Session) (x : Run α) :
    (s.run x).2.state = endState (x s.state) := by
  cases h : x s.state with
  | ok a t => rw [run_of_ok h, endState_ok]
  | error e t => rw [run_of_error h, endState_error]

end MiniLisp

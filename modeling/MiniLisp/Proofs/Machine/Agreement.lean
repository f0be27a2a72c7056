import MiniLisp.Proofs.Machine.Steps

/-!
# The machine runs the evaluator

Started on a tree or on a call, the machine comes to an end, and there it has the result and the
state that `evaluate` or `call` gives (`Machine.reaches_evaluate`, `Machine.reaches_call`). It comes
back to the stack and to the count of open evaluations that it started with.

The budget of `evaluate` is what the count leaves of the limit. The proofs follow the evaluator, and
`Machine.Reaches.andThen` does for the machine what `Run.andThen_apply` does for runs: the second
half of a computation is what the frame on top of the stack stands for.
-/

namespace MiniLisp

namespace Machine

variable {config : Config} {m : Machine} {stack : List Frame} {depth : Nat} {s : State}

/-! ## Frames -/

theorem abandon_of_ne {frame : Frame} (h : frame ≠ .evaluation) (e : Fault) :
    abandon stack depth s e frame = ⟨.failed e, stack, depth, s⟩ := by
  cases frame with
  | evaluation => exact absurd rfl h
  | _ => rfl

/-- A computation and the frame that waits for its value make up the whole computation. -/
theorem Reaches.andThen {x : Run Value} {f : Value → Run Value} {frame : Frame}
    (hframe : frame ≠ .evaluation) (hx : Reaches config m (ended (x s) (frame :: stack) depth))
    (hf : ∀ v t, Reaches config (resume stack depth t v frame) (ended (f v t) stack depth)) :
    Reaches config m (ended ((x >>= f) s) stack depth) := by
  refine hx.trans ?_
  rw [Run.andThen_apply]
  cases x s with
  | ok v t => exact .step rfl (hf v t)
  | error e t => exact .step (congrArg some (abandon_of_ne hframe e)) (.refl _)

/-- A call that is over hands on how it has ended. -/
theorem reaches_of_activation (r : EStateM.Result Fault State Value) (f : Procedure)
    (args : List Value) :
    Reaches config (ended r (.activation f args :: stack) depth) (ended r stack depth) := by
  cases r with
  | ok v t => exact .step rfl (.refl _)
  | error e t => exact .step rfl (.refl _)

/-- So does an evaluation, which is then no longer open. -/
theorem reaches_of_evaluation (r : EStateM.Result Fault State Value) :
    Reaches config (ended r (.evaluation :: stack) (depth + 1)) (ended r stack depth) := by
  cases r with
  | ok v t => exact .step rfl (.refl _)
  | error e t => exact .step rfl (.refl _)

/-! ## Calls -/

section Evaluator

variable {eval : Sexp → Run Value}

theorem reaches_rows {f : Procedure} {calls : List (List Value)} {known : List Value}
    (hcall : ∀ row ∈ calls, ∀ stack s, Reaches config ⟨.call f row, stack, depth, s⟩
      (ended (MiniLisp.call config eval f row s) stack depth)) :
    Reaches config (beginRows stack depth s f known calls)
      (ended ((calls.mapM (MiniLisp.call config eval f) >>= fun results =>
        pure (.list (known ++ results)) : Run Value) s) stack depth) := by
  induction calls generalizing known s with
  | nil =>
    rw [List.mapM_nil, pure_bind, List.append_nil]
    exact .refl _
  | cons row calls ih =>
    rw [List.mapM_cons, bind_assoc]
    refine Reaches.andThen Frame.noConfusion (hcall row List.mem_cons_self _ s) fun v t => ?_
    have hrest := @ih t (known ++ [v]) fun r hr => hcall r (List.mem_cons_of_mem _ hr)
    simpa only [resume, bind_assoc, pure_bind, List.append_assoc, List.singleton_append]
      using hrest

variable (heval : ∀ tree stack s, Reaches config ⟨.evaluate tree, stack, depth, s⟩
  (ended (eval tree s) stack depth))

include heval in
/-- **A call is run to its end.** The calls that `map` and `apply` make have smaller arguments. -/
theorem reaches_call (f : Procedure) (args : List Value) (stack : List Frame) (s : State) :
    Reaches config ⟨.call f args, stack, depth, s⟩
      (ended (MiniLisp.call config eval f args s) stack depth) := by
  induction hn : Value.sizes args using Nat.strongRecOn generalizing f args stack s with
  | _ n ih =>
    subst hn
    -- the body of the call runs above its activation, from the state in which it is reported
    suffices hbody : Reaches config
        (beginBody (.activation f args :: stack) depth (s.reported (.called f.name args)) config f
          args)
        (ended (MiniLisp.call config eval f args s) (.activation f args :: stack) depth) from
      .step rfl (hbody.trans (reaches_of_activation _ f args))
    match f with
    | .declared id name parameters template =>
      rw [call_declared, Run.andThen_apply, Run.report_apply, beginBody]
      dsimp only
      split
      · exact heval _ _ _
      · exact .refl _
    | .primitive (.operation op) =>
      rw [call_operation, Run.andThen_apply, Run.report_apply]
      exact .refl _
    | .primitive .println =>
      rw [call_println, Run.andThen_apply, Run.report_apply]
      exact .refl _
    | .primitive .apply =>
      rw [call_apply, Run.andThen_apply, Run.report_apply, beginBody]
      dsimp only
      cases h : applyCall args with
      | error misuse => exact .refl _
      | ok p => exact ih _ (sizes_lt_of_applyCall h) p.1 p.2 _ _ rfl
    | .primitive .map =>
      rw [call_map, Run.andThen_apply, Run.report_apply, beginBody]
      dsimp only
      cases h : mapCalls args with
      | error misuse => exact .refl _
      | ok p =>
        exact reaches_rows fun row hrow stack s =>
          ih _ (sizes_lt_of_mapCalls h hrow) p.1 row stack s rfl

/-! ## Expressions -/

include heval

theorem reaches_arguments (f : Procedure) (known : List Value) (rest : List Sexp) :
    Reaches config (beginArguments stack depth s f known rest)
      (ended ((rest.mapM eval >>= fun args => MiniLisp.call config eval f (known ++ args)) s)
        stack depth) := by
  induction rest generalizing known s with
  | nil =>
    rw [List.mapM_nil, pure_bind, List.append_nil]
    exact reaches_call heval f known stack s
  | cons t rest ih =>
    rw [List.mapM_cons, bind_assoc]
    refine Reaches.andThen Frame.noConfusion (heval t _ s) fun v u => ?_
    have hrest := @ih u (known ++ [v])
    simpa only [resume, bind_assoc, pure_bind, List.append_assoc, List.singleton_append]
      using hrest

theorem reaches_conditional (operands : List Sexp) :
    Reaches config (beginForm stack depth s .conditional operands)
      (ended (evaluateConditional eval operands s) stack depth) := by
  match operands with
  | [test, yes, no] =>
    refine Reaches.andThen Frame.noConfusion (heval test (.branches yes no :: stack) s)
      fun v t => ?_
    cases v with
    | boolean b =>
      cases b with
      | true => exact heval yes stack t
      | false => exact heval no stack t
    | _ => exact heval no stack t
  | [] | [_] | [_, _] | _ :: _ :: _ :: _ :: _ => exact .refl _

theorem reaches_assignment (form : Form) (operands : List Sexp) :
    Reaches config (beginAssignment stack depth s form operands)
      (ended (evaluateAssignment eval form operands s) stack depth) := by
  match operands with
  | [target, operand] =>
    rw [beginAssignment, evaluateAssignment_eq]
    cases expectSymbol form target with
    | error misuse => exact .refl _
    | ok name =>
      exact Reaches.andThen Frame.noConfusion (heval operand (.assignment form name :: stack) s)
        fun v t => .refl _
  | [] | [_] | _ :: _ :: _ :: _ => exact .refl _

theorem reaches_form (form : Form) (operands : List Sexp) :
    Reaches config (beginForm stack depth s form operands)
      (ended (evaluateForm eval form operands s) stack depth) := by
  cases form with
  | conditional => exact reaches_conditional heval operands
  | define => exact reaches_assignment heval .define operands
  | set => exact reaches_assignment heval .set operands
  | function => exact .refl _

theorem reaches_expression (items : List Sexp) :
    Reaches config (beginExpression stack depth s items)
      (ended (evaluateExpression config eval items s) stack depth) := by
  cases items with
  | nil => exact .refl _
  | cons head operands =>
    rw [beginExpression, evaluateExpression]
    cases head.form? with
    | some form =>
      dsimp only
      rw [Run.andThen_apply, Run.report_apply]
      exact reaches_form heval form operands
    | none =>
      refine Reaches.andThen Frame.noConfusion (heval head (.operator operands :: stack) s)
        fun v t => ?_
      cases v with
      | function f => exact reaches_arguments heval f [] operands
      | _ => exact .refl _

end Evaluator

/-! ## Evaluations -/

/-- **An evaluation is run to its end.** -/
theorem reaches_evaluate (config : Config) (tree : Sexp) (stack : List Frame) (depth : Nat)
    (s : State) :
    Reaches config ⟨.evaluate tree, stack, depth, s⟩
      (ended (evaluate config (config.maxDepth - depth) tree s) stack depth) := by
  -- on what is left of the limit, which each open evaluation lowers by one
  induction hbudget : config.maxDepth - depth generalizing tree stack depth s with
  | zero =>
    have hover : config.maxDepth < depth + 1 := by omega
    have hbegin : Machine.step config ⟨.evaluate tree, stack, depth, s⟩ =
        some (ended (.error (.overflow config.maxDepth) s) (.evaluation :: stack) (depth + 1)) :=
      congrArg some (if_pos hover)
    exact .step hbegin (reaches_of_evaluation _)
  | succ budget ih =>
    have hwithin : ¬ config.maxDepth < depth + 1 := by omega
    have hbegin : Machine.step config ⟨.evaluate tree, stack, depth, s⟩ = _ :=
      congrArg some (if_neg hwithin)
    refine .step hbegin ?_
    refine .trans ?_ (reaches_of_evaluation _)
    cases tree with
    | atom v => exact .refl _
    | expression items =>
      exact reaches_expression (fun tree stack s => ih tree stack (depth + 1) s (by omega)) items
    | placeholder index => exact .refl _

end Machine

end MiniLisp

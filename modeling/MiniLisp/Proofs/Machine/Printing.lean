import MiniLisp.Proofs.Machine.Steps
import MiniLisp.Proofs.Run.Record

/-!
# Who prints

A line is printed by a call of `println`, and every call that succeeds prints one. So the lines that
a run of the machine prints to a sink which takes everything are, in their order, those of the
moments at which such a call is next (`Machine.run_printed`).
-/

namespace MiniLisp

/-- From the first state to the second one these lines have been printed. -/
structure State.Printed (s t : State) (ls : List String) : Prop where
  journal : ∃ events, t.journal.toList = s.journal.toList ++ events ∧ printedLines events = ls
  sink : s.output.sink = .unlimited → t.output.sink = .unlimited

namespace State.Printed

variable {s t u : State} {ls more : List String}

theorem none (s : State) : Printed s s [] :=
  ⟨⟨[], (List.append_nil _).symm, rfl⟩, id⟩

theorem trans (h : Printed s t ls) (h' : Printed t u more) : Printed s u (ls ++ more) := by
  obtain ⟨events, hevents, rfl⟩ := h.journal
  obtain ⟨others, hothers, rfl⟩ := h'.journal
  refine ⟨⟨events ++ others, ?_, printedLines_append _ _⟩, h'.sink ∘ h.sink⟩
  rw [hothers, hevents, List.append_assoc]

/-- What has been reported is printed if it is a line. -/
theorem reported (s : State) (e : Event) : Printed s (s.reported e) (printedLines [e]) :=
  ⟨⟨[e], Array.toList_push, rfl⟩, id⟩

/-- What is bound makes no difference. -/
theorem withEnvironment (h : Printed s t ls) (environment : Environment) (declarations : Nat) :
    Printed s { t with environment, declarations } ls :=
  ⟨h.journal, h.sink⟩

end State.Printed

namespace Machine

variable {stack : List Frame} {depth : Nat} {s : State} {config : Config}

/-- The line that is about to be printed: the next step is a call of `println`, which succeeds. -/
def printing? (config : Config) (m : Machine) : Option String :=
  match m.control, (m.step config).map Machine.control with
  | .call (.primitive .println) args, some (.returned _) => (printedLine args).toOption
  | _, _ => none

theorem printing?_println {m next : Machine} {args : List Value}
    (hcontrol : m.control = .call (.primitive .println) args) (h : m.step config = some next) :
    m.printing? config =
      match next.control with
      | .returned _ => (printedLine args).toOption
      | _ => none := by
  rw [printing?, hcontrol, h]
  cases hnext : next.control <;> simp [hnext]

theorem printing?_of_ne {m : Machine} (h : ∀ args, m.control ≠ .call (.primitive .println) args) :
    m.printing? config = none := by
  unfold printing?
  split
  · rename_i hcontrol _
    exact absurd hcontrol (h _)
  · rfl

theorem printing?_of_ended {m : Machine} (h : m.step config = none) : m.printing? config = none := by
  unfold printing?
  rw [h]
  split
  · rename_i hnext
    cases hnext
  · rfl

/-! ## Steps that print nothing -/

theorem printed_ofExcept (r : Except Misuse Value) :
    State.Printed s (ended (Run.ofExcept r s) stack depth).state [] := by
  cases r with
  | ok v => exact .none s
  | error e => exact .none s

theorem printed_evaluateAtom (v : Value) :
    State.Printed s (ended (evaluateAtom v s) stack depth).state [] := by
  cases v with
  | symbol name =>
    change State.Printed s (ended (Run.lookup name s) stack depth).state []
    rw [Run.lookup_apply]
    cases s.environment.get? name <;> exact .none s
  | _ => exact .none s

theorem printed_assignAs (form : Form) (name : String) (v : Value) :
    State.Printed s (ended ((do assignAs form name v; return .none : Run Value) s) stack depth).state
      [] := by
  rw [Run.andThen_apply, assignAs_apply]
  have hassigned := State.Printed.reported s (.assigned form name)
  exact (hassigned.trans (.reported _ (.bound name v))).withEnvironment _ _

theorem printed_evaluateDeclaration (operands : List Sexp) :
    State.Printed s (ended (evaluateDeclaration operands s) stack depth).state [] := by
  match operands with
  | [target, formals, body] =>
    rw [evaluateDeclaration_eq, Run.andThen_apply]
    cases expectSymbol .function target with
    | error e => exact .none s
    | ok name =>
      change State.Printed s (ended ((do
        let parameters ← Run.ofExcept (expectParameters formals)
        declareAs name parameters (body.abstracted parameters)
        return .none : Run Value) s) stack depth).state []
      rw [Run.andThen_apply]
      cases expectParameters formals with
      | error e => exact .none s
      | ok parameters =>
        change State.Printed s (ended ((do
          declareAs name parameters (body.abstracted parameters)
          return .none : Run Value) s) stack depth).state []
        rw [Run.andThen_apply, declareAs_apply]
        have hdeclared := State.Printed.reported s
          (.declared name parameters (body.abstracted parameters))
        exact (hdeclared.trans (.reported _ (.bound name _))).withEnvironment _ _
  | [] | [_] | [_, _] | _ :: _ :: _ :: _ :: _ => exact .none s

theorem printed_beginArguments (f : Procedure) (known : List Value) (rest : List Sexp) :
    State.Printed s (beginArguments stack depth s f known rest).state [] := by
  cases rest <;> exact .none s

theorem printed_beginRows (f : Procedure) (known : List Value) (rest : List (List Value)) :
    State.Printed s (beginRows stack depth s f known rest).state [] := by
  cases rest <;> exact .none s

theorem printed_beginAssignment (form : Form) (operands : List Sexp) :
    State.Printed s (beginAssignment stack depth s form operands).state [] := by
  unfold beginAssignment
  split
  · split <;> exact .none s
  · exact .none s

theorem printed_beginForm (form : Form) (operands : List Sexp) :
    State.Printed s (beginForm stack depth s form operands).state [] := by
  unfold beginForm
  split
  · exact .none s
  · exact .none s
  · exact printed_beginAssignment _ _
  · exact printed_beginAssignment _ _
  · exact printed_evaluateDeclaration _

theorem printed_beginEvaluation (tree : Sexp) :
    State.Printed s (beginEvaluation stack depth s config tree).state [] := by
  unfold beginEvaluation
  split
  · exact .none s
  · split
    · exact printed_evaluateAtom _
    · unfold beginExpression
      split
      · exact .none s
      · split
        · rename_i form _
          exact (State.Printed.reported s (.entered form)).trans (printed_beginForm _ _)
        · exact .none s
    · exact .none s

theorem printed_resume (v : Value) (frame : Frame) :
    State.Printed s (resume stack depth s v frame).state [] := by
  cases frame with
  | evaluation => exact .none s
  | activation f args => exact .none s
  | branches yes no =>
    unfold resume
    dsimp only
    split <;> exact .none s
  | assignment form name => exact printed_assignAs form name v
  | operator operands =>
    cases v with
    | function f => exact printed_beginArguments f [] operands
    | _ => exact .none s
  | arguments f known rest => exact printed_beginArguments f _ rest
  | rows f known rest => exact printed_beginRows f _ rest

theorem printed_abandon (e : Fault) (frame : Frame) :
    State.Printed s (abandon stack depth s e frame).state [] := by
  cases frame <;> exact .none s

/-- A call that prints is a call of `println`. -/
theorem printed_beginBody {f : Procedure} (hf : f ≠ .primitive .println) (args : List Value) :
    State.Printed s (beginBody stack depth s config f args).state [] := by
  unfold beginBody
  split
  · split <;> exact .none s
  · exact printed_ofExcept _
  · exact absurd rfl hf
  · split <;> exact .none s
  · split
    · exact printed_beginRows _ _ _
    · exact .none s

/-! ## Lines -/

/-- A call of `println` succeeds and prints its line, unless it has no arguments. -/
theorem printed_printArguments (config : Config) (hsink : s.output.sink = .unlimited)
    (args : List Value) :
    match printedLine args with
    | .ok line => ∃ t, printArguments config args s = .ok .none t ∧ State.Printed s t [line]
    | .error m => printArguments config args s = .error (.misuse m) s := by
  unfold printArguments
  rw [Run.andThen_apply]
  cases printedLine args with
  | error m => rfl
  | ok line =>
    have hfault : s.output.fault? line = none := by
      rw [Output.fault?, hsink]
      rfl
    have hline := State.Printed.reported s (.printed line)
    have hwritten : State.Printed s
        { s.reported (.printed line) with output := s.output.writeLine line } [line] := by
      refine ⟨hline.journal, fun _ => ?_⟩
      change s.output.sink.after _ = _
      rw [hsink]
      rfl
    change ∃ t, (do Run.printLine config line; return .none : Run Value) s = .ok .none t ∧ _
    rw [Run.andThen_apply, Run.printLine_apply, hfault]
    cases config.echo with
    | true => exact ⟨_, rfl, hwritten⟩
    | false => exact ⟨_, rfl, hline⟩

/-- **What a step prints** is the line that is about to be printed, if there is one. -/
theorem step_printed {m next : Machine} (hsink : m.state.output.sink = .unlimited)
    (h : m.step config = some next) :
    State.Printed m.state next.state (m.printing? config).toList := by
  obtain ⟨control, stack, depth, s⟩ := m
  cases control with
  | evaluate tree =>
    obtain rfl := Option.some.inj h
    exact printed_beginEvaluation tree
  | returned v =>
    cases stack with
    | nil => cases h
    | cons frame stack =>
      obtain rfl := Option.some.inj h
      exact printed_resume v frame
  | failed e =>
    cases stack with
    | nil => cases h
    | cons frame stack =>
      obtain rfl := Option.some.inj h
      exact printed_abandon e frame
  | call f args =>
    have hcalled := State.Printed.reported s (.called f.name args)
    by_cases hf : f = .primitive .println
    · subst hf
      rw [printing?_println rfl h]
      obtain rfl := Option.some.inj h
      have hline := printed_printArguments
        (s := s.reported (.called (Procedure.primitive .println).name args)) config hsink args
      change State.Printed s (ended (printArguments config args _) _ _).state
        (match (ended (printArguments config args _) _ _).control with
        | .returned _ => (printedLine args).toOption
        | _ => none).toList
      cases hargs : printedLine args with
      | error e =>
        rw [hargs] at hline
        rw [hline]
        exact hcalled
      | ok line =>
        rw [hargs] at hline
        obtain ⟨t, ht, hprinted⟩ := hline
        rw [ht]
        exact hcalled.trans hprinted
    · rw [printing?_of_ne fun _ hcontrol => hf (Control.call.inj hcontrol).1]
      obtain rfl := Option.some.inj h
      exact hcalled.trans (printed_beginBody hf args)

/-- **What a run prints** are the lines that are about to be printed at its moments, in order. By
induction on the steps. -/
theorem run_printed (config : Config) {m : Machine} (hsink : m.state.output.sink = .unlimited)
    (count : Nat) :
    State.Printed m.state (m.run config count).state
      ((List.range count).filterMap fun i => (m.run config i).printing? config) := by
  induction count with
  | zero => exact .none _
  | succ count ih =>
    rw [List.range_succ, List.filterMap_append]
    cases hstep : (m.run config count).step config with
    | none =>
      have hlast : m.run config (count + 1) = m.run config count := by
        rw [run_add]
        exact run_of_step_eq_none hstep 1
      rw [hlast]
      simpa [printing?_of_ended hstep] using ih
    | some next =>
      rw [run_succ_of_step hstep]
      have hnext := ih.trans (step_printed (ih.sink hsink) hstep)
      cases hprinting : (m.run config count).printing? config <;> simpa [hprinting] using hnext

end Machine

end MiniLisp

import MiniLisp.Proofs.Machine.Agreement
import MiniLisp.Proofs.Value.Procedures

/-!
# The procedures in a machine

The procedures that a machine holds are those in what it is about to do, in what waits on its stack
and in what names are bound to (`Machine.Holds`). A step only moves them: what is held after it was
held before, or it is the one procedure that the step has made by evaluating a `function` form
(`Machine.step_over`, `Machine.holds_of_step`).
-/

namespace MiniLisp

/-! ## What a machine holds -/

/-- The procedures found in what waits. -/
def Frame.procedures : Frame → List Procedure
  | .evaluation => []
  | .activation f args => f.procedures ++ Value.proceduresAll args
  | .branches yes no => yes.procedures ++ no.procedures
  | .assignment _ _ => []
  | .operator operands => Sexp.proceduresAll operands
  | .arguments f known rest =>
    f.procedures ++ (Value.proceduresAll known ++ Sexp.proceduresAll rest)
  | .rows f known rest =>
    f.procedures ++ (Value.proceduresAll known ++ rest.flatMap Value.proceduresAll)

/-- The procedures found in what a machine is about to do. A fault has none, for it is only ever
shown. -/
def Control.procedures : Control → List Procedure
  | .evaluate tree => tree.procedures
  | .call f args => f.procedures ++ Value.proceduresAll args
  | .returned v => v.procedures
  | .failed _ => []

/-- A procedure is found in a value that a name is bound to. -/
def Environment.Holds (e : Environment) (f : Procedure) : Prop :=
  ∃ name v, e.get? name = some v ∧ f ∈ v.procedures

def Machine.Holds (m : Machine) (f : Procedure) : Prop :=
  f ∈ m.control.procedures ∨ (∃ frame ∈ m.stack, f ∈ frame.procedures) ∨
    m.state.environment.Holds f

/-! ## Procedures with a property -/

section Over

variable (Q : Procedure → Prop)

/-- All procedures found in a value have the property. -/
def Value.Over (v : Value) : Prop :=
  ∀ f ∈ v.procedures, Q f

def Sexp.Over (t : Sexp) : Prop :=
  ∀ f ∈ t.procedures, Q f

def Frame.Over (frame : Frame) : Prop :=
  ∀ f ∈ frame.procedures, Q f

def Control.Over (control : Control) : Prop :=
  ∀ f ∈ control.procedures, Q f

/-- All procedures bound in a state have the property, and so many have been declared. -/
structure State.Over (count : Nat) (s : State) : Prop where
  bound : ∀ name v, s.environment.get? name = some v → v.Over Q
  declarations_eq : s.declarations = count

/-- All procedures that a machine holds have the property, and so many have been declared. -/
structure Machine.Over (count : Nat) (m : Machine) : Prop where
  control : m.control.Over Q
  stack : ∀ frame ∈ m.stack, frame.Over Q
  state : m.state.Over Q count

end Over

variable {Q : Procedure → Prop} {count : Nat}

theorem Value.over_hereditary : Value.Hereditary (Value.Over Q) :=
  Value.hereditary_procedures Q

theorem Value.over_all {items : List Value} :
    (∀ f ∈ Value.proceduresAll items, Q f) ↔ ∀ v ∈ items, v.Over Q := by
  simp only [Value.mem_proceduresAll, Value.Over]
  constructor
  · exact fun h v hv f hf => h f ⟨v, hv, hf⟩
  · rintro h f ⟨v, hv, hf⟩
    exact h v hv f hf

theorem Sexp.over_expression {items : List Sexp} :
    (Sexp.expression items).Over Q ↔ ∀ t ∈ items, t.Over Q := by
  simp only [Sexp.Over, Sexp.mem_procedures_expression]
  constructor
  · exact fun h t ht f hf => h f ⟨t, ht, hf⟩
  · rintro h f ⟨t, ht, hf⟩
    exact h t ht f hf

theorem Frame.over_activation {f : Procedure} {args : List Value} :
    (Frame.activation f args).Over Q ↔ (Value.function f).Over Q ∧ ∀ v ∈ args, v.Over Q := by
  rw [← Value.over_all]
  exact List.forall_mem_append

theorem Frame.over_branches {yes no : Sexp} :
    (Frame.branches yes no).Over Q ↔ yes.Over Q ∧ no.Over Q :=
  List.forall_mem_append

theorem Frame.over_assignment (form : Form) (name : String) :
    (Frame.assignment form name).Over Q := nofun

theorem Frame.over_operator {operands : List Sexp} :
    (Frame.operator operands).Over Q ↔ ∀ t ∈ operands, t.Over Q :=
  Sexp.over_expression

theorem Frame.over_arguments {f : Procedure} {known : List Value} {rest : List Sexp} :
    (Frame.arguments f known rest).Over Q ↔
      (Value.function f).Over Q ∧ (∀ v ∈ known, v.Over Q) ∧ ∀ t ∈ rest, t.Over Q := by
  rw [← Value.over_all, ← Sexp.over_expression]
  exact List.forall_mem_append.trans (and_congr_right fun _ => List.forall_mem_append)

theorem Frame.over_rows {f : Procedure} {known : List Value} {rest : List (List Value)} :
    (Frame.rows f known rest).Over Q ↔
      (Value.function f).Over Q ∧ (∀ v ∈ known, v.Over Q) ∧ ∀ row ∈ rest, ∀ v ∈ row, v.Over Q := by
  simp only [← Value.over_all, ← List.forall_mem_flatMap]
  exact List.forall_mem_append.trans (and_congr_right fun _ => List.forall_mem_append)

theorem Control.over_call {f : Procedure} {args : List Value} :
    (Control.call f args).Over Q ↔ (Value.function f).Over Q ∧ ∀ v ∈ args, v.Over Q := by
  rw [← Value.over_all]
  exact List.forall_mem_append

/-! ## Declarations -/

/-- A tree that declares a procedure of this name and with these parameters and this template. -/
inductive Sexp.Declares (name : String) (parameters : List String) : Sexp → Sexp → Prop
  | intro {target formals body : Sexp} (hname : expectSymbol .function target = .ok name)
    (hparameters : expectParameters formals = .ok parameters) :
    Declares name parameters (body.abstracted parameters)
      (.expression [.atom (.symbol "function"), target, formals, body])

/-- The template has procedures of the tree only. -/
theorem Sexp.Declares.over {name : String} {parameters : List String} {template tree : Sexp}
    (h : Sexp.Declares name parameters template tree) (htree : tree.Over Q) : template.Over Q := by
  cases h with
  | intro hname hparameters =>
    exact fun f hf => Sexp.over_expression.1 htree _ (by simp) f
      (Sexp.mem_procedures_of_abstracted hf)

/-- The machine is about to make this procedure, which its next step does if the limit allows. -/
def Machine.Declares (m : Machine) (f : Procedure) : Prop :=
  ∃ tree name parameters template, m.control = .evaluate tree ∧
    Sexp.Declares name parameters template tree ∧
    f = .declared m.state.declarations name parameters template

/-- A step makes a procedure and binds its name to it. -/
structure Machine.Makes (m next : Machine) (f : Procedure) : Prop where
  declares : m.Declares f
  control_eq : next.control = .returned .none
  stack_eq : next.stack = .evaluation :: m.stack
  environment_eq : next.state.environment = m.state.environment.define f.name (.function f)
  declarations_eq : next.state.declarations = m.state.declarations + 1

/-- The form `function` makes its procedure and binds its name to it, or changes nothing. -/
theorem evaluateDeclaration_cases (operands : List Sexp) (s : State) :
    (∃ name parameters template, Sexp.Declares name parameters template
        (.expression (.atom (.symbol "function") :: operands)) ∧
      evaluateDeclaration operands s = .ok .none (endState (declareAs name parameters template s))) ∨
    ∃ e, evaluateDeclaration operands s = .error e s := by
  match operands with
  | [target, formals, body] =>
    rw [evaluateDeclaration_eq]
    cases hname : expectSymbol .function target with
    | error m => exact .inr ⟨.misuse m, rfl⟩
    | ok name =>
      cases hparameters : expectParameters formals with
      | error m => exact .inr ⟨.misuse m, rfl⟩
      | ok parameters =>
        refine .inl ⟨name, parameters, _, .intro hname hparameters, ?_⟩
        change (declareAs name parameters (body.abstracted parameters) >>= fun _ =>
          pure .none : Run Value) s = _
        rw [Run.andThen_apply, declareAs_apply]
        rfl
  | [] | [_] | [_, _] | _ :: _ :: _ :: _ :: _ =>
    exact .inr ⟨_, congrFun (evaluateDeclaration_of_length (by simp)) s⟩

/-! ## Steps -/

namespace State.Over

variable {s : State}

theorem reported (h : s.Over Q count) (e : Event) : (s.reported e).Over Q count :=
  ⟨h.bound, h.declarations_eq⟩

theorem assigned (h : s.Over Q count) (form : Form) (name : String) {v : Value} (hv : v.Over Q) :
    (endState (assignAs form name v s)).Over Q count := by
  rw [assignAs_apply]
  exact ⟨Environment.forall_define h.bound name hv, h.declarations_eq⟩

theorem printed (h : s.Over Q count) (config : Config) (line : String) :
    (endState (Run.printLine config line s)).Over Q count := by
  obtain ⟨output, hprint | ⟨fault, hprint⟩⟩ := Run.printLine_cases config line s
  · rw [hprint]
    exact ⟨h.bound, h.declarations_eq⟩
  · rw [hprint]
    exact ⟨h.bound, h.declarations_eq⟩

end State.Over

namespace Machine

variable {config : Config} {stack : List Frame} {depth : Nat} {s : State}

namespace Over

theorem failed {stack : List Frame} (hstack : ∀ frame ∈ stack, frame.Over Q) {s : State}
    (hs : s.Over Q count) (e : Fault) (depth : Nat) : Over Q count ⟨.failed e, stack, depth, s⟩ :=
  ⟨nofun, hstack, hs⟩

section Begin

variable (hstack : ∀ frame ∈ stack, frame.Over Q) (hs : s.Over Q count)
include hstack hs

theorem ended_ofExcept {M : Misuse → Prop} {r : Except Misuse Value}
    (hr : Yields M (Value.Over Q) r) :
    Over Q count (ended (Run.ofExcept r s) stack depth) := by
  cases hr with
  | ok h => exact ⟨h, hstack, hs⟩
  | error _ => exact failed hstack hs _ _

theorem printArguments (config : Config) (args : List Value) :
    Over Q count (ended (printArguments config args s) stack depth) := by
  unfold MiniLisp.printArguments
  rw [Run.andThen_apply]
  cases printedLine args with
  | error m => exact failed hstack hs _ _
  | ok line =>
    have hprinted := hs.printed config line
    change Over Q count (ended ((Run.printLine config line >>= fun _ => pure .none : Run Value) s)
      stack depth)
    rw [Run.andThen_apply]
    cases h : Run.printLine config line s with
    | ok _ t =>
      rw [h] at hprinted
      exact ⟨nofun, hstack, hprinted⟩
    | error e t =>
      rw [h] at hprinted
      exact failed hstack hprinted _ _

theorem beginArguments {f : Procedure} {known : List Value} {rest : List Sexp}
    (hf : (Value.function f).Over Q) (hknown : ∀ v ∈ known, v.Over Q)
    (hrest : ∀ t ∈ rest, t.Over Q) :
    Over Q count (beginArguments stack depth s f known rest) := by
  cases rest with
  | nil => exact ⟨Control.over_call.2 ⟨hf, hknown⟩, hstack, hs⟩
  | cons t rest =>
    obtain ⟨ht, hrest⟩ := List.forall_mem_cons.1 hrest
    exact ⟨ht, List.forall_mem_cons.2 ⟨Frame.over_arguments.2 ⟨hf, hknown, hrest⟩, hstack⟩, hs⟩

theorem beginRows {f : Procedure} {known : List Value} {rest : List (List Value)}
    (hf : (Value.function f).Over Q) (hknown : ∀ v ∈ known, v.Over Q)
    (hrest : ∀ row ∈ rest, ∀ v ∈ row, v.Over Q) :
    Over Q count (beginRows stack depth s f known rest) := by
  cases rest with
  | nil => exact ⟨Value.over_hereditary.list.2 hknown, hstack, hs⟩
  | cons row rest =>
    obtain ⟨hrow, hrest⟩ := List.forall_mem_cons.1 hrest
    exact ⟨Control.over_call.2 ⟨hf, hrow⟩,
      List.forall_mem_cons.2 ⟨Frame.over_rows.2 ⟨hf, hknown, hrest⟩, hstack⟩, hs⟩

theorem beginAssignment (form : Form) {operands : List Sexp}
    (hoperands : ∀ t ∈ operands, t.Over Q) :
    Over Q count (beginAssignment stack depth s form operands) := by
  unfold Machine.beginAssignment
  split
  · split
    · exact ⟨hoperands _ (by simp),
        List.forall_mem_cons.2 ⟨Frame.over_assignment _ _, hstack⟩, hs⟩
    · exact failed hstack hs _ _
  · exact failed hstack hs _ _

theorem beginForm {form : Form} (hform : form ≠ .function) {operands : List Sexp}
    (hoperands : ∀ t ∈ operands, t.Over Q) :
    Over Q count (beginForm stack depth s form operands) := by
  unfold Machine.beginForm
  split
  · obtain ⟨htest, hbranches⟩ := List.forall_mem_cons.1 hoperands
    obtain ⟨hyes, hno⟩ := List.forall_mem_cons.1 hbranches
    have hframe := Frame.over_branches.2 ⟨hyes, hno _ List.mem_cons_self⟩
    exact ⟨htest, List.forall_mem_cons.2 ⟨hframe, hstack⟩, hs⟩
  · exact failed hstack hs _ _
  · exact beginAssignment hstack hs _ hoperands
  · exact beginAssignment hstack hs _ hoperands
  · exact absurd rfl hform

theorem resume {frame : Frame} (hframe : frame.Over Q) {v : Value} (hv : v.Over Q) :
    Over Q count (resume stack depth s v frame) := by
  cases frame with
  | evaluation => exact ⟨hv, hstack, hs⟩
  | activation f args => exact ⟨hv, hstack, hs⟩
  | branches yes no =>
    obtain ⟨hyes, hno⟩ := Frame.over_branches.1 hframe
    unfold Machine.resume
    dsimp only
    split
    · exact ⟨hyes, hstack, hs⟩
    · exact ⟨hno, hstack, hs⟩
  | assignment form name =>
    have hassigned := hs.assigned form name hv
    rw [assignAs_apply] at hassigned
    unfold Machine.resume
    dsimp only
    rw [Run.andThen_apply, assignAs_apply]
    exact ⟨nofun, hstack, hassigned⟩
  | operator operands =>
    cases v with
    | function f => exact beginArguments hstack hs hv nofun (Frame.over_operator.1 hframe)
    | _ => exact failed hstack hs _ _
  | arguments f known rest =>
    obtain ⟨hf, hknown, hrest⟩ := Frame.over_arguments.1 hframe
    exact beginArguments hstack hs hf (List.forall_mem_append.2 ⟨hknown, by simpa using hv⟩) hrest
  | rows f known rest =>
    obtain ⟨hf, hknown, hrest⟩ := Frame.over_rows.1 hframe
    exact beginRows hstack hs hf (List.forall_mem_append.2 ⟨hknown, by simpa using hv⟩) hrest

theorem abandon (frame : Frame) (e : Fault) : Over Q count (abandon stack depth s e frame) := by
  cases frame with
  | _ => exact failed hstack hs _ _

theorem evaluateAtom {v : Value} (hv : v.Over Q) :
    Over Q count (ended (evaluateAtom v s) stack depth) := by
  cases v with
  | symbol name =>
    change Over Q count (ended (Run.lookup name s) stack depth)
    rw [Run.lookup_apply]
    cases hget : s.environment.get? name with
    | none => exact failed hstack hs _ _
    | some v => exact ⟨hs.bound name v hget, hstack, hs⟩
  | _ => exact ⟨hv, hstack, hs⟩

theorem beginCall {f : Procedure} {args : List Value} (hf : (Value.function f).Over Q)
    (hargs : ∀ v ∈ args, v.Over Q) : Over Q count (beginCall stack depth s config f args) := by
  have hstack' : ∀ frame ∈ .activation f args :: stack, frame.Over Q :=
    List.forall_mem_cons.2 ⟨Frame.over_activation.2 ⟨hf, hargs⟩, hstack⟩
  have hs' := hs.reported (.called f.name args)
  unfold Machine.beginCall beginBody
  split
  · split
    · refine ⟨fun g hg => ?_, hstack', hs'⟩
      rcases Sexp.mem_procedures_of_filled hg with hg | ⟨v, hv, hg⟩
      · exact hf g (List.mem_cons_of_mem _ hg)
      · exact hargs v hv g hg
    · exact failed hstack' hs' _ _
  · exact ended_ofExcept hstack' hs'
      (Operation.compute_yields (Q := fun _ => True) Value.over_hereditary hargs _)
  · exact printArguments hstack' hs' _ _
  · have hyields := applyCall_yields (Q := fun _ => True) Value.over_hereditary hargs
    split
    · rename_i happly
      rw [happly] at hyields
      cases hyields with
      | ok h => exact ⟨Control.over_call.2 h, hstack', hs'⟩
    · exact failed hstack' hs' _ _
  · have hyields := mapCalls_yields (Q := fun _ => True) Value.over_hereditary hargs
    split
    · rename_i hmap
      rw [hmap] at hyields
      cases hyields with
      | ok h => exact beginRows hstack' hs' h.1 (by simp) h.2
    · exact failed hstack' hs' _ _

end Begin

theorem mono {P : Procedure → Prop} (hQ : ∀ f, Q f → P f) {m : Machine} (h : Over Q count m) :
    Over P count m where
  control f hf := hQ f (h.control f hf)
  stack frame hframe f hf := hQ f (h.stack frame hframe f hf)
  state := ⟨fun name v hv f hf => hQ f (h.state.bound name v hv f hf), h.state.declarations_eq⟩

end Over

/-- The machine once it has made a procedure holds what it held, and the new one. -/
theorem Makes.over {m next : Machine} {f : Procedure} (h : m.Makes next f)
    (hm : m.Over Q count) : next.Over (fun g => Q g ∨ g = f) (count + 1) where
  control := by
    rw [h.control_eq]
    nofun
  stack := by
    rw [h.stack_eq]
    exact List.forall_mem_cons.2 ⟨nofun, fun frame hframe g hg => .inl (hm.stack frame hframe g hg)⟩
  state := by
    obtain ⟨tree, name, parameters, template, hcontrol, hdeclares, rfl⟩ := h.declares
    have htree := hm.control
    rw [hcontrol] at htree
    refine ⟨?_, h.declarations_eq.trans (congrArg (· + 1) hm.state.declarations_eq)⟩
    rw [h.environment_eq]
    refine Environment.forall_define
      (fun n v hv g hg => .inl (hm.state.bound n v hv g hg)) _ fun g hg => ?_
    rcases List.mem_cons.1 hg with rfl | hg
    · exact .inr rfl
    · exact .inl (hdeclares.over htree g hg)

/-- A machine that is about to evaluate a `function` form makes its procedure, or it fails and has
declared and bound nothing. -/
theorem step_function {m next : Machine} {operands : List Sexp}
    (hcontrol : m.control = .evaluate (.expression (.atom (.symbol "function") :: operands)))
    (hstep : m.step config = some next) :
    (∃ f, m.Makes next f) ∨ (∃ e, next.control = .failed e) ∧
      next.stack = .evaluation :: m.stack ∧ next.state.environment = m.state.environment ∧
        next.state.declarations = m.state.declarations := by
  obtain ⟨control, stack, depth, s⟩ := m
  obtain rfl : control = _ := hcontrol
  obtain rfl := Option.some.inj hstep
  unfold beginEvaluation
  split
  · exact .inr ⟨⟨_, rfl⟩, rfl, rfl, rfl⟩
  · change (∃ f, Makes _ (ended (evaluateDeclaration operands _) _ _) f) ∨
      (∃ e, (ended (evaluateDeclaration operands _) _ _).control = .failed e) ∧
      (ended (evaluateDeclaration operands _) _ _).stack = _ ∧
      (ended (evaluateDeclaration operands _) _ _).state.environment = _ ∧
      (ended (evaluateDeclaration operands _) _ _).state.declarations = _
    obtain ⟨name, parameters, template, hdeclares, h⟩ | ⟨e, h⟩ :=
      evaluateDeclaration_cases operands (s.reported (.entered .function))
    · rw [h, declareAs_apply]
      exact .inl ⟨_, ⟨_, name, parameters, template, rfl, hdeclares, rfl⟩, rfl, rfl, rfl, rfl⟩
    · rw [h]
      exact .inr ⟨⟨e, rfl⟩, rfl, rfl, rfl⟩

/-- An evaluation of any other tree makes no procedure. -/
theorem Over.beginEvaluation (hstack : ∀ frame ∈ stack, frame.Over Q) (hs : s.Over Q count)
    {tree : Sexp} (htree : tree.Over Q)
    (hother : ∀ operands, tree ≠ .expression (.atom (.symbol "function") :: operands)) :
    Over Q count (beginEvaluation stack depth s config tree) := by
  have hstack' : ∀ frame ∈ .evaluation :: stack, frame.Over Q :=
    List.forall_mem_cons.2 ⟨nofun, hstack⟩
  unfold Machine.beginEvaluation
  split
  · exact failed hstack' hs _ _
  · cases tree with
    | atom v => exact evaluateAtom hstack' hs htree
    | placeholder index => exact failed hstack' hs _ _
    | expression items =>
      cases items with
      | nil => exact ⟨nofun, hstack', hs⟩
      | cons head operands =>
        obtain ⟨hhead, hoperands⟩ := List.forall_mem_cons.1 (Sexp.over_expression.1 htree)
        dsimp only [beginExpression]
        split
        · rename_i form hform
          refine beginForm hstack' (hs.reported _) (fun heq => ?_) hoperands
          subst heq
          exact hother operands (by rw [Sexp.eq_of_form? hform]; rfl)
        · exact ⟨hhead, List.forall_mem_cons.2 ⟨Frame.over_operator.2 hoperands, hstack'⟩, hs⟩

/-- **A step makes at most one procedure, and moves all others.** -/
theorem step_over {m next : Machine} (h : m.Over Q count) (hstep : m.step config = some next) :
    next.Over Q count ∨ ∃ f, m.Makes next f ∧ next.Over (fun g => Q g ∨ g = f) (count + 1) := by
  by_cases hfunction : ∃ operands,
      m.control = .evaluate (.expression (.atom (.symbol "function") :: operands))
  · obtain ⟨operands, hcontrol⟩ := hfunction
    obtain ⟨f, hf⟩ | ⟨⟨e, he⟩, hstack, henvironment, hdeclarations⟩ := step_function hcontrol hstep
    · exact .inr ⟨f, hf, hf.over h⟩
    · refine .inl ⟨?_, ?_, ?_⟩
      · rw [he]
        nofun
      · rw [hstack]
        exact List.forall_mem_cons.2 ⟨nofun, h.stack⟩
      · refine ⟨?_, hdeclarations.trans h.state.declarations_eq⟩
        rw [henvironment]
        exact h.state.bound
  · left
    obtain ⟨control, stack, depth, s⟩ := m
    obtain ⟨hcontrol, hstack, hs⟩ := h
    cases control with
    | evaluate tree =>
      cases hstep
      exact .beginEvaluation hstack hs hcontrol fun operands heq =>
        hfunction ⟨operands, congrArg Control.evaluate heq⟩
    | call f args =>
      cases hstep
      obtain ⟨hf, hargs⟩ := Control.over_call.1 hcontrol
      exact .beginCall hstack hs hf hargs
    | returned v =>
      cases stack with
      | nil => cases hstep
      | cons frame stack =>
        cases hstep
        obtain ⟨hframe, hstack⟩ := List.forall_mem_cons.1 hstack
        exact .resume hstack hs hframe hcontrol
    | failed e =>
      cases stack with
      | nil => cases hstep
      | cons frame stack =>
        cases hstep
        exact .abandon (List.forall_mem_cons.1 hstack).2 hs frame e

/-! ## What is held -/

theorem Over.of_holds {m : Machine} (h : m.Over Q count) {f : Procedure} (hf : m.Holds f) : Q f := by
  obtain hf | ⟨frame, hframe, hf⟩ | ⟨name, v, hv, hf⟩ := hf
  · exact h.control f hf
  · exact h.stack frame hframe f hf
  · exact h.state.bound name v hv f hf

theorem over_holds (m : Machine) : m.Over m.Holds m.state.declarations where
  control _ hf := .inl hf
  stack frame hframe _ hf := .inr (.inl ⟨frame, hframe, hf⟩)
  state := ⟨fun name v hv _ hf => .inr (.inr ⟨name, v, hv, hf⟩), rfl⟩

/-- What a machine holds it held before its last step, unless it was made in that step. -/
theorem holds_of_step {m next : Machine} (hstep : m.step config = some next) {f : Procedure}
    (hf : next.Holds f) : m.Holds f ∨ m.Makes next f := by
  obtain h | ⟨g, hg, h⟩ := step_over m.over_holds hstep
  · exact .inl (h.of_holds hf)
  · obtain hf | rfl := h.of_holds hf
    · exact .inl hf
    · exact .inr hg

/-! ## What is carried along -/

/-- What a step carries from one place to another arrives as the very same value. -/
structure Carries (m next : Machine) : Prop where
  /-- By `define` and `set`, from the operand to the name. -/
  assigned : ∀ form name v stack, m.control = .returned v →
    m.stack = .assignment form name :: stack → next.state.environment.get? name = some v
  /-- By a name, from what it is bound to. -/
  found : ∀ name v w, m.control = .evaluate (.atom (.symbol name)) →
    m.state.environment.get? name = some v → next.control = .returned w → w = v
  /-- By a call, from the arguments to the places of the parameters, where they are leaves. -/
  passed : ∀ id name parameters template args tree,
    m.control = .call (.declared id name parameters template) args →
    next.control = .evaluate tree → tree = template.filled args
  /-- By a leaf that is no name, from the tree. -/
  leaf : ∀ v w, m.control = .evaluate (.atom v) → (∀ name, v ≠ .symbol name) →
    next.control = .returned w → w = v
  /-- From a call that is over to where it was made. -/
  returned : ∀ f args v stack, m.control = .returned v → m.stack = .activation f args :: stack →
    next.control = .returned v
  /-- Into a list, with the others or before the items of one. -/
  listed : ∀ args, m.control = .call (.primitive (.operation .list)) args →
    next.control = .returned (.list args)
  attached : ∀ op v items, op = .attach ∨ op = .cons →
    m.control = .call (.primitive (.operation op)) [v, .list items] →
    next.control = .returned (.list (v :: items))
  /-- Out of a list, the first item or the others. -/
  taken : ∀ op v items, op = .head ∨ op = .car →
    m.control = .call (.primitive (.operation op)) [.list (v :: items)] →
    next.control = .returned v
  left : ∀ op v items, op = .tail ∨ op = .cdr →
    m.control = .call (.primitive (.operation op)) [.list (v :: items)] →
    next.control = .returned (.list items)

theorem step_carries {m next : Machine} (hstep : m.step config = some next) :
    m.Carries next := by
  obtain ⟨control, stack, depth, s⟩ := m
  refine ⟨?_, ?_, ?_, ?_, ?_, ?_, ?_, ?_, ?_⟩
  · rintro form name v stack ⟨⟩ ⟨⟩
    cases hstep
    unfold Machine.resume
    dsimp only
    rw [Run.andThen_apply, assignAs_apply]
    exact (Environment.get?_define _ _ _ _).trans (if_pos rfl)
  · rintro name v w ⟨⟩ hget hnext
    cases hstep
    unfold Machine.beginEvaluation at hnext
    split at hnext
    · cases hnext
    · change (ended (Run.lookup name s) _ _).control = _ at hnext
      rw [Run.lookup_apply, show s.environment.get? name = some v from hget] at hnext
      exact (Control.returned.inj hnext).symm
  · rintro id name parameters template args tree ⟨⟩ hnext
    cases hstep
    unfold Machine.beginCall beginBody at hnext
    dsimp only at hnext
    split at hnext
    · exact (Control.evaluate.inj hnext).symm
    · cases hnext
  · rintro v w ⟨⟩ hv hnext
    cases hstep
    unfold Machine.beginEvaluation at hnext
    split at hnext
    · cases hnext
    · cases v with
      | symbol name => exact absurd rfl (hv name)
      | _ => exact (Control.returned.inj hnext).symm
  · rintro f args v stack ⟨⟩ ⟨⟩
    cases hstep
    rfl
  · rintro args ⟨⟩
    cases hstep
    rfl
  · rintro op v items (rfl | rfl) ⟨⟩ <;> cases hstep <;> rfl
  · rintro op v items (rfl | rfl) ⟨⟩ <;> cases hstep <;> rfl
  · rintro op v items (rfl | rfl) ⟨⟩ <;> cases hstep <;> rfl

end Machine

end MiniLisp

import MiniLisp.Proofs.Run.Simulation
import MiniLisp.Proofs.Tree.Alike

/-!
# Runs on alike values

A program cannot look into a procedure except by calling it. So two runs of alike trees on alike
values go on in step, as long as the procedures that correspond do so when they are called: they
have alike values, report events that are shown by the same lines, print the same, and stop for
faults of the same kind and wording.

`Simulation.alike` is the simulation for such runs. Beside alike trees it may relate others, which
then have to be shown to be in step. `AlikeStates` says what the states owe, for instance those that
differ in alike values and in their journals only (`State.Alike`). `AlikeLaws` adds what the
procedures owe, and `AlikeLaws.lawful` derives the laws of the simulation from it.
-/

namespace MiniLisp

theorem Fault.detail_notCallable (v : Value) :
    (Fault.notCallable v).detail = s!"{v.text} is not a procedure" := rfl

theorem evaluateAtom_of_ne {v : Value} (h : ∀ n, v ≠ .symbol n) : evaluateAtom v = pure v := by
  cases v with
  | symbol n => exact absurd rfl (h n)
  | _ => rfl

/-! ## Alike states -/

/-- States that bind the same names to values related by `V` and have the same output. Their
journals may differ. -/
structure State.Alike (V : Value → Value → Prop) (s t : State) : Prop where
  environment : ∀ n, Option.Rel V (s.environment.get? n) (t.environment.get? n)
  output : t.output = s.output
  declarations : t.declarations = s.declarations

namespace State.Alike

variable {V : Value → Value → Prop} {s t : State}

theorem reported (h : State.Alike V s t) (e e' : Event) :
    State.Alike V (s.reported e) (t.reported e') :=
  ⟨h.environment, h.output, h.declarations⟩

theorem define (h : State.Alike V s t) (n : String) {v w : Value} (hvw : V v w) :
    State.Alike V { s with environment := s.environment.define n v }
      { t with environment := t.environment.define n w } := by
  refine ⟨fun m => ?_, h.output, h.declarations⟩
  rw [Environment.get?_define, Environment.get?_define]
  split
  · exact .some hvw
  · exact h.environment m

end State.Alike

namespace Simulation

variable (state : State → State → Prop) (names : String → Prop) (P : Procedure → Procedure → Prop)
  (tree : Sexp → Sexp → Prop)

/-- Runs on alike values, whose faults are of the same kind and wording. -/
def alike : Simulation where
  state := state
  value := Value.Alike names P
  tree := tree
  fault e f := e.kind = f.kind ∧ e.detail = f.detail
  cut _ _ _ := False

/-- What the states of runs on alike values owe. -/
structure AlikeStates : Prop where
  faithful : Procedure.Faithful P
  environment : ∀ {s t}, state s t → ∀ n,
    Option.Rel (Value.Alike names P) (s.environment.get? n) (t.environment.get? n)
  sink : ∀ {s t}, state s t → t.output.sink = s.output.sink
  reported : ∀ {s t} {e e' : Event}, state s t → e.line = e'.line →
    state (s.reported e) (t.reported e')
  written : ∀ {s t} line, state s t → state { s with output := s.output.writeLine line }
    { t with output := t.output.writeLine line }
  define : ∀ {s t v w} n, state s t → Value.Alike names P v w →
    state { s with environment := s.environment.define n v }
      { t with environment := t.environment.define n w }

/-- What the states and the procedures of runs on alike values owe. -/
structure AlikeLaws : Prop extends AlikeStates state names P where
  tree_of_alike : ∀ {t u}, Sexp.Alike id names P t u → tree t u
  callee : ∀ {f g}, P f g → (alike state names P tree).Callee f g
  declare : ∀ n parameters {template template'}, Sexp.Alike id names P template template' →
    (alike state names P tree).Runs (fun _ _ => True) (declareAs n parameters template)
      (declareAs n parameters template')

variable {state names P tree}

theorem alikeStates (hP : Procedure.Faithful P) :
    AlikeStates (State.Alike (Value.Alike names P)) names P where
  faithful := hP
  environment h := h.environment
  sink h := congrArg Output.sink h.output
  reported h _ := h.reported _ _
  written {s t} line h := by
    refine ⟨h.environment, ?_, h.declarations⟩
    change t.output.writeLine line = s.output.writeLine line
    rw [h.output]
  define n h hvw := h.define n hvw

theorem computed_of_agrees {V : α → β → Prop} {x : Except Misuse α} {y : Except Misuse β}
    (h : Agrees V x y) : (alike state names P tree).Computed V x y := by
  cases h with
  | ok h => exact .ok h
  | error h => exact .error ⟨rfl, h⟩

theorem declaration_of_length {operands operands' : List Sexp} (h : operands.length ≠ 3)
    (length : operands'.length = operands.length) :
    (alike state names P tree).Runs (Value.Alike names P) (evaluateDeclaration operands)
      (evaluateDeclaration operands') := by
  rw [evaluateDeclaration_of_length h, evaluateDeclaration_of_length (length ▸ h), length]
  exact .throw ⟨rfl, rfl⟩

namespace AlikeStates

variable (L : AlikeStates state names P)

include L

/-! ## Steps -/

theorem report {e e' : Event} (h : e.line = e'.line) :
    (alike state names P tree).Runs (fun _ _ => True) (Run.report e) (Run.report e') :=
  fun _ _ hst => .returned True.intro (L.reported hst h)

theorem called {f g : Procedure} (hfg : P f g) {args args' : List Value}
    (hargs : List.Forall₂ (Value.Alike names P) args args') :
    (alike state names P tree).Runs (fun _ _ => True) (Run.report (.called f.name args))
      (Run.report (.called g.name args')) := by
  refine L.report ?_
  simp only [Event.line, Event.level, Event.target, Event.message, L.faithful.name hfg,
    hargs.length_eq]

theorem printLine (config : Config) (line : String) :
    (alike state names P tree).Runs (fun _ _ => True) (Run.printLine config line)
      (Run.printLine config line) := by
  refine .printLine (fun hst => ?_) (fun hst => L.reported hst rfl)
    (fun hst => L.written line (L.reported hst rfl)) fun _ => ⟨rfl, rfl⟩
  rw [Output.fault?, Output.fault?, L.sink hst]

theorem println (config : Config) {args args' : List Value}
    (h : List.Forall₂ (Value.Alike names P) args args') :
    (alike state names P tree).Runs (Value.Alike names P) (printArguments config args)
      (printArguments config args') := by
  unfold printArguments
  refine Runs.andThen (fun h _ => h)
    (.ofExcept (computed_of_agrees (printedLine_agrees L.faithful h)))
    (fun line _ hline => ?_) fun _ => (Run.Grows.printLine _ _).andThen fun _ => .pure _
  subst hline
  exact (L.printLine config line).andThen (fun h _ => h) (fun _ _ _ => .pure .none)
    fun _ => .pure _

theorem lookup (n : String) :
    (alike state names P tree).Runs (Value.Alike names P) (Run.lookup n) (Run.lookup n) := by
  intro s t hst
  have hvalue := L.environment hst n
  rw [Run.lookup_apply, Run.lookup_apply]
  generalize s.environment.get? n = v at hvalue
  generalize t.environment.get? n = w at hvalue
  cases hvalue with
  | none => exact .failed ⟨rfl, rfl⟩ hst
  | some hvw => exact .returned hvw hst

theorem assign (form : Form) (n : String) {v w : Value} (hvw : Value.Alike names P v w) :
    (alike state names P tree).Runs (fun _ _ => True) (assignAs form n v) (assignAs form n w) := by
  intro s t hst
  rw [assignAs_apply, assignAs_apply]
  have hassigned := L.reported hst (e := .assigned form n) rfl
  have hbound : (Event.bound n v).line = (Event.bound n w).line := by
    simp only [Event.line, Event.level, Event.target, Event.message, hvw.text_eq L.faithful]
  exact .returned True.intro (L.define n (L.reported hassigned hbound) hvw)

/-! ## The laws -/

/-- **Runs on alike values** satisfy the laws of a simulation, if procedures that correspond do so
when they are called, the leaves of related trees are alike and related expressions are in step. It
may also be one that asks less of the faults. -/
theorem lawful {fault : Fault → Fault → Prop}
    (hfault : ∀ {e f}, (alike state names P tree).fault e f → fault e f) (config : Config)
    (hcallee : ∀ {f g}, P f g →
      ({ alike state names P tree with fault := fault } : Simulation).Callee f g)
    (hatom : ∀ {v u}, tree (.atom v) u → Sexp.Alike id names P (.atom v) u)
    (hexpression : ∀ {items u}, tree (.expression items) u → ∃ items', u = .expression items' ∧
      ({ alike state names P tree with fault := fault } : Simulation).InStep items items')
    (hplaceholder : ∀ {i u}, tree (.placeholder i) u → u = .placeholder i) :
    ({ alike state names P tree with fault := fault } : Simulation).Lawful config config where
  cut_continues h _ := h
  none := .none
  list h := Value.Alike.list_iff.2 h
  truth h := by
    cases h with
    | boolean b => rfl
    | _ => simp
  callee {v w} h := by
    have hnot : fault (.notCallable v) (.notCallable w) :=
      hfault ⟨rfl, by
        rw [Fault.detail_notCallable, Fault.detail_notCallable, h.text_eq L.faithful]⟩
    cases h with
    | function h => exact .inl ⟨_, _, rfl, rfl, hcallee h⟩
    | _ => exact .inr ⟨fun f => nofun, fun g => nofun, hnot⟩
  operandCount _ _ _ := hfault ⟨rfl, rfl⟩
  entered form := (L.report rfl).coarser hfault
  assign _ hvw := (L.assign _ _ hvw).coarser hfault
  called hfg hargs := by
    cases hfg with
    | function hfg => exact (L.called hfg hargs).coarser hfault
  operation {op _ _} h := (computed_of_agrees (op.compute_agrees L.faithful h)).coarser hfault
  println h := (L.println config h).coarser hfault
  apply h := Computed.coarser hfault <| computed_of_agrees <|
    (applyCall_agrees L.faithful h).imp fun _ _ h => ⟨.function h.1, h.2⟩
  map h := Computed.coarser hfault <| computed_of_agrees <|
    (mapCalls_agrees L.faithful h).imp fun _ _ h => ⟨.function h.1, h.2⟩
  atom h := by
    cases hatom h with
    | name n => exact ⟨_, rfl, (L.lookup n).coarser hfault⟩
    | atom hv hvw =>
      refine ⟨_, rfl, ?_⟩
      rw [evaluateAtom_of_ne hv, evaluateAtom_of_ne (hvw.ne_symbol hv)]
      exact .pure hvw
  expression := hexpression
  placeholder h := ⟨_, hplaceholder h, hfault ⟨rfl, rfl⟩⟩

end AlikeStates

namespace AlikeLaws

variable (L : AlikeLaws state names P tree)

include L

/-! ## Declarations -/

/-- Two declarations correspond if their targets are alike and their formals and bodies make
procedures that correspond. -/
theorem declaration {target target' formals formals' body body' : Sexp}
    (htarget : Sexp.Alike id names P target target')
    (hformals : Agrees (fun l k => ∀ n, (alike state names P tree).Runs (fun _ _ => True)
      (declareAs n l (body.abstracted l)) (declareAs n k (body'.abstracted k)))
        (expectParameters formals) (expectParameters formals')) :
    (alike state names P tree).Runs (Value.Alike names P)
      (evaluateDeclaration [target, formals, body])
      (evaluateDeclaration [target', formals', body']) := by
  rw [evaluateDeclaration_eq, evaluateDeclaration_eq]
  have hname := htarget.expectSymbol_agrees L.faithful .function
  refine Runs.andThen (fun h _ => h) (.ofExcept (computed_of_agrees hname)) (fun n m hnm => ?_)
    fun _ => (Run.Grows.ofExcept _).andThen fun _ =>
      (declareAs_grows _ _ _).andThen fun _ => .pure _
  obtain ⟨rfl, -⟩ := hnm
  refine Runs.andThen (fun h _ => h) (.ofExcept (computed_of_agrees hformals))
    (fun l k hlk => ?_) fun _ => (declareAs_grows _ _ _).andThen fun _ => .pure _
  exact (hlk n).andThen (fun h _ => h) (fun _ _ _ => .pure .none) fun _ => .pure _

theorem declaration_of_alike {operands operands' : List Sexp}
    (h : List.Forall₂ (Sexp.Alike id names P) operands operands') :
    (alike state names P tree).Runs (Value.Alike names P) (evaluateDeclaration operands)
      (evaluateDeclaration operands') := by
  by_cases hlength : operands.length = 3
  · match h with
    | .cons htarget (.cons hformals (.cons hbody .nil)) =>
      refine L.declaration htarget ?_
      refine (hformals.expectParameters_agrees L.faithful).imp ?_
      rintro l _ ⟨rfl, -⟩
      exact fun n => L.declare n l (hbody.abstracted_same l)
  · exact declaration_of_length hlength h.length_eq.symm

/-! ## Expressions in step -/

theorem targets {t u : Sexp} (h : Sexp.Alike id names P t u) (form : Form) :
    (alike state names P tree).Targets form t u := by
  refine computed_of_agrees ?_
  refine (h.expectSymbol_agrees L.faithful form).imp fun n m hnm => ?_
  exact ⟨hnm.1, u, L.tree_of_alike (hnm.2 ▸ h)⟩

theorem assignment {form : Form} (hform : form = .define ∨ form = .set)
    {head head' : Sexp} (h : head.form? = some form) (h' : head'.form? = some form)
    {operands operands' : List Sexp}
    (hoperands : List.Forall₂ (Sexp.Alike id names P) operands operands') :
    (alike state names P tree).InStep (head :: operands) (head' :: operands') := by
  match hoperands with
  | .cons htarget (.cons hoperand .nil) =>
    exact .assignment form hform h h' (L.targets htarget form) (L.tree_of_alike hoperand)
  | .nil => exact .refusal form hform h h' (by simp) rfl
  | .cons _ .nil => exact .refusal form hform h h' (by simp) rfl
  | .cons _ (.cons _ (.cons _ hrest)) =>
    exact .refusal form hform h h' (by simp) (by simp [hrest.length_eq])

/-- Alike expressions are evaluated in step. -/
theorem inStep {items items' : List Sexp} (h : List.Forall₂ (Sexp.Alike id names P) items items') :
    (alike state names P tree).InStep items items' := by
  cases h with
  | nil => exact .nil
  | @cons head head' operands operands' hhead h =>
    have hhead' := hhead.form?_eq
    have htrees : List.Forall₂ tree operands operands' := h.imp fun _ _ h => L.tree_of_alike h
    cases hform : head.form? with
    | none => exact .application hform (hhead' ▸ hform) (L.tree_of_alike hhead) htrees
    | some form =>
      cases form with
      | conditional => exact .conditional hform (hhead' ▸ hform) htrees
      | define => exact L.assignment (.inl rfl) hform (hhead' ▸ hform) h
      | set => exact L.assignment (.inr rfl) hform (hhead' ▸ hform) h
      | function => exact .declaration hform (hhead' ▸ hform) (L.declaration_of_alike h)

/-- Alike trees satisfy the laws of a simulation, and so do trees around them that are evaluated in
step. -/
theorem lawful (config : Config)
    (hatom : ∀ {v u}, tree (.atom v) u → Sexp.Alike id names P (.atom v) u)
    (hexpression : ∀ {items u}, tree (.expression items) u → ∃ items', u = .expression items' ∧
      (alike state names P tree).InStep items items')
    (hplaceholder : ∀ {i u}, tree (.placeholder i) u → u = .placeholder i) :
    (alike state names P tree).Lawful config config :=
  L.toAlikeStates.lawful (fun h => h) config L.callee hatom hexpression hplaceholder

end AlikeLaws

end Simulation

end MiniLisp

import MiniLisp.Proofs.Primitive.Closure
import MiniLisp.Proofs.Run.Simulation

/-!
# Runs of the same tree

Most comparisons of two runs are of runs that evaluate the same trees and compute with the same
values, and differ in their states or configurations only. `Simulation.same` is the simulation for
these; it also keeps a property of values and one of trees, so that with equal states it shows an
invariant. `SameLaws.lawful` derives the laws of a simulation from the few that depend on the
states: what is done at an event, a binding, a line and a declaration. Most of these come in turn
from what the states owe, one field at a time (`StepLaws`). What two sessions answer in which the
same has been run is read off by `Runs.answers`.
-/

namespace MiniLisp

namespace Simulation

/-- Corresponding values are the same one, which satisfies `P`, and corresponding trees the same
one, which satisfies `Q`. -/
def same (state : State → State → Prop) (P : Value → Prop) (Q : Sexp → Prop)
    (fault : Fault → Fault → Prop) (cut : Fault → State → State → Prop) : Simulation where
  state := state
  value v w := P v ∧ v = w
  tree t u := Q t ∧ t = u
  fault := fault
  cut := cut

theorem forall₂_and_eq_iff {P : α → Prop} {l k : List α} :
    List.Forall₂ (fun a b => P a ∧ a = b) l k ↔ (∀ a ∈ l, P a) ∧ l = k := by
  rw [List.forall₂_and_left, List.forall₂_eq_eq_eq]

/-- A computation without effects corresponds to itself. -/
theorem Computed.of_yields {S : Simulation} {M : Misuse → Prop} {P : α → Prop} {V : α → α → Prop}
    (hfault : ∀ {m : Misuse}, M m → S.fault (.misuse m) (.misuse m)) {r : Except Misuse α}
    (h : Yields M P r) (hV : ∀ a, P a → V a a) : S.Computed V r r := by
  cases h with
  | ok h => exact .ok (hV _ h)
  | error h => exact .error (hfault h)

section Operands

variable {P : Value → Prop} {Q : Sexp → Prop} {t : Sexp}

theorem expectSymbol_yields {form : Form} (h : Q t) :
    Yields (Misuse.Concerns P Q) (fun name => Q (.atom (.symbol name))) (expectSymbol form t) := by
  unfold expectSymbol
  split
  · exact .ok h
  · exact .error (.notASymbol form h)

theorem expectParameters_yields (hitems : ∀ {items}, Q (.expression items) → ∀ t ∈ items, Q t)
    (h : Q t) : Yields (Misuse.Concerns P Q) (fun _ => True) (expectParameters t) := by
  cases t with
  | expression items =>
    exact (Yields.mapM fun t ht => expectSymbol_yields (hitems h t ht)).trivial
  | _ => exact .error (.notParameters h)

end Operands

section Same

variable (state : State → State → Prop) (P : Value → Prop) (Q : Sexp → Prop)
  (fault : Fault → Fault → Prop) (cut : Fault → State → State → Prop)

/-- What the simulation of runs of the same tree owes, beside what holds of all of them. -/
structure SameLaws (config config' : Config) : Prop where
  cut_continues : ∀ {e s t u}, cut e s t → u.Continues t → cut e s u
  hereditary : Value.Hereditary P
  misuse : ∀ {m : Misuse}, m.Concerns P Q → fault (.misuse m) (.misuse m)
  notCallable : ∀ {v}, P v → fault (.notCallable v) (.notCallable v)
  unfilled : ∀ {i}, Q (.placeholder i) → fault (.misuse (.unfilled i)) (.misuse (.unfilled i))
  items : ∀ {items}, Q (.expression items) → ∀ t ∈ items, Q t
  filled : ∀ {id name parameters template args},
    P (.function (.declared id name parameters template)) → (∀ v ∈ args, P v) →
    args.length = parameters.length → Q (template.filled args)
  atom : ∀ {v}, Q (.atom v) → (same state P Q fault cut).Runs (fun v w => P v ∧ v = w)
    (evaluateAtom v) (evaluateAtom v)
  entered : ∀ form, (same state P Q fault cut).Runs (fun _ _ => True)
    (Run.report (.entered form)) (Run.report (.entered form))
  called : ∀ {f args}, P (.function f) → (∀ v ∈ args, P v) →
    (same state P Q fault cut).Runs (fun _ _ => True) (Run.report (.called f.name args))
      (Run.report (.called f.name args))
  printLine : ∀ {args line}, (∀ v ∈ args, P v) → printedLine args = .ok line →
    (same state P Q fault cut).Runs (fun _ _ => True) (Run.printLine config line)
      (Run.printLine config' line)
  assign : ∀ {form name v}, Q (.atom (.symbol name)) → P v →
    (same state P Q fault cut).Runs (fun _ _ => True) (assignAs form name v)
      (assignAs form name v)
  declare : ∀ {name parameters body}, Q (.atom (.symbol Form.function.name)) →
    Q (.atom (.symbol name)) → Q body →
    (same state P Q fault cut).Runs (fun _ _ => True)
      (declareAs name parameters (body.abstracted parameters))
      (declareAs name parameters (body.abstracted parameters))

variable {state P Q fault cut} {config config' : Config}

namespace SameLaws

variable (L : SameLaws state P Q fault cut config config')

include L

theorem callee {f : Procedure} (h : P (.function f)) : (same state P Q fault cut).Callee f f := by
  cases f with
  | primitive p => exact .primitive p
  | declared id name parameters template =>
    refine .declared rfl (fun hargs hlength => ?_) fun n => L.misuse (.argumentCount h n)
    obtain ⟨hP, rfl⟩ := forall₂_and_eq_iff.1 hargs
    exact ⟨L.filled h hP hlength, rfl⟩

theorem targets {form : Form} {t : Sexp} (h : Q t) :
    (same state P Q fault cut).Targets form t t :=
  .of_yields L.misuse (expectSymbol_yields h) fun n hn => ⟨rfl, .atom (.symbol n), hn, rfl⟩

theorem assignment {form : Form} (hform : form = .define ∨ form = .set) {head : Sexp}
    (h : head.form? = some form) {operands : List Sexp} (hoperands : ∀ t ∈ operands, Q t) :
    (same state P Q fault cut).InStep (head :: operands) (head :: operands) := by
  match operands with
  | [target, operand] =>
    exact .assignment form hform h h (L.targets (hoperands target (by simp)))
      ⟨hoperands operand (by simp), rfl⟩
  | [] | [_] | _ :: _ :: _ :: _ => exact .refusal form hform h h (by simp) rfl

theorem declaration (hform : Q (.atom (.symbol Form.function.name))) {operands : List Sexp}
    (h : ∀ t ∈ operands, Q t) :
    (same state P Q fault cut).Runs (fun v w => P v ∧ v = w)
      (evaluateDeclaration operands) (evaluateDeclaration operands) := by
  match operands with
  | [target, formals, body] =>
    rw [evaluateDeclaration_eq]
    refine Runs.andThen (V := fun n m => Q (.atom (.symbol n)) ∧ n = m) L.cut_continues
      (.ofExcept (.of_yields L.misuse (expectSymbol_yields (h target (by simp)))
        fun _ hn => ⟨hn, rfl⟩)) (fun name _ hname => ?_) fun _ =>
      (Run.Grows.ofExcept _).andThen fun _ => (declareAs_grows _ _ _).andThen fun _ => .pure _
    obtain ⟨hname, rfl⟩ := hname
    refine Runs.andThen (V := (· = ·)) L.cut_continues
      (.ofExcept (.of_yields L.misuse
        (expectParameters_yields L.items (h formals (by simp))) fun _ _ => rfl))
      (fun parameters _ hparameters => ?_) fun _ =>
        (declareAs_grows _ _ _).andThen fun _ => .pure _
    subst hparameters
    exact (L.declare hform hname (h body (by simp))).andThen L.cut_continues
      (fun _ _ _ => .pure ⟨L.hereditary.none, rfl⟩) fun _ => .pure _
  | [] | [_] | [_, _] | _ :: _ :: _ :: _ :: _ => exact .throw (L.misuse (.operandCount _ _ _))

theorem println {args : List Value} (hargs : ∀ v ∈ args, P v) :
    (same state P Q fault cut).Runs (fun v w => P v ∧ v = w) (printArguments config args)
      (printArguments config' args) := by
  have hline : Yields (Misuse.Concerns P Q) (fun _ => True) (printedLine args) :=
    printedLine_yields
  unfold printArguments
  cases h : printedLine args with
  | error m =>
    rw [h] at hline
    cases hline with
    | error hm => exact .throw (L.misuse hm)
  | ok line =>
    refine (L.printLine hargs h).andThen L.cut_continues (fun _ _ _ => ?_) fun _ => .pure _
    exact .pure ⟨L.hereditary.none, rfl⟩

theorem inStep {items : List Sexp} (h : ∀ t ∈ items, Q t) :
    (same state P Q fault cut).InStep items items := by
  cases items with
  | nil => exact .nil
  | cons head operands =>
    have hoperands : ∀ t ∈ operands, Q t := fun t ht => h t (List.mem_cons_of_mem _ ht)
    have htrees := forall₂_and_eq_iff.2 ⟨hoperands, rfl⟩
    have hhead : Q head := h head List.mem_cons_self
    cases hform : head.form? with
    | none => exact .application hform hform ⟨hhead, rfl⟩ htrees
    | some form =>
      cases form with
      | conditional => exact .conditional hform hform htrees
      | define => exact L.assignment (.inl rfl) hform hoperands
      | set => exact L.assignment (.inr rfl) hform hoperands
      | function =>
        rw [Sexp.eq_of_form? hform] at hhead
        exact .declaration hform hform (L.declaration hhead hoperands)

/-- **Runs of the same tree** satisfy the laws of a simulation. -/
theorem lawful : (same state P Q fault cut).Lawful config config' where
  cut_continues := L.cut_continues
  none := ⟨L.hereditary.none, rfl⟩
  list h := by
    obtain ⟨hP, rfl⟩ := forall₂_and_eq_iff.1 h
    exact ⟨L.hereditary.list.2 hP, rfl⟩
  truth h := by rw [h.2]
  callee h := by
    obtain ⟨hv, rfl⟩ := h
    rename_i v
    cases v with
    | function f => exact .inl ⟨f, f, rfl, rfl, L.callee hv⟩
    | _ => exact .inr ⟨fun f h => (by cases h), fun f h => (by cases h), L.notCallable hv⟩
  operandCount form expected got := L.misuse (.operandCount form expected got)
  entered := L.entered
  assign hname h := by
    obtain ⟨hv, rfl⟩ := h
    exact L.assign hname.1 hv
  called hf hargs := by
    obtain ⟨hf, hfg⟩ := hf
    cases hfg
    obtain ⟨hP, rfl⟩ := forall₂_and_eq_iff.1 hargs
    exact L.called hf hP
  operation {op args args'} hargs := by
    obtain ⟨hP, rfl⟩ := forall₂_and_eq_iff.1 hargs
    exact .of_yields L.misuse (op.compute_yields L.hereditary hP) fun v hv => ⟨hv, rfl⟩
  println hargs := by
    obtain ⟨hP, rfl⟩ := forall₂_and_eq_iff.1 hargs
    exact L.println hP
  apply hargs := by
    obtain ⟨hP, rfl⟩ := forall₂_and_eq_iff.1 hargs
    exact .of_yields L.misuse (applyCall_yields L.hereditary hP) fun p hp =>
      ⟨⟨hp.1, rfl⟩, forall₂_and_eq_iff.2 ⟨hp.2, rfl⟩⟩
  map hargs := by
    obtain ⟨hP, rfl⟩ := forall₂_and_eq_iff.1 hargs
    refine .of_yields L.misuse (mapCalls_yields L.hereditary hP) fun p hp => ⟨⟨hp.1, rfl⟩, ?_⟩
    exact List.forall₂_same.2 fun row hrow => forall₂_and_eq_iff.2 ⟨hp.2 row hrow, rfl⟩
  atom h := by
    obtain ⟨hv, rfl⟩ := h
    exact ⟨_, rfl, L.atom hv⟩
  expression h := by
    obtain ⟨hitems, rfl⟩ := h
    exact ⟨_, rfl, L.inStep (L.items hitems)⟩
  placeholder h := by
    obtain ⟨hi, rfl⟩ := h
    exact ⟨_, rfl, L.unfilled hi⟩

end SameLaws

/-! ## What the states owe -/

/-- An atom corresponds to itself if a name has the same value in corresponding states, and if one
that has none stops both runs or cuts one of them. -/
theorem Runs.evaluateAtom {v : Value} (hliteral : (∀ n, v ≠ .symbol n) → P v)
    (hfound : ∀ {s t n}, v = .symbol n → state s t →
      t.environment.get? n = s.environment.get? n ∧ ∀ w, s.environment.get? n = some w → P w)
    (hmissing : ∀ {s t n}, v = .symbol n → state s t → s.environment.get? n = none →
      fault (.undefined n) (.undefined n) ∨ cut (.undefined n) s t) :
    (same state P Q fault cut).Runs (fun v w => P v ∧ v = w) (evaluateAtom v)
      (evaluateAtom v) := by
  cases v with
  | symbol n =>
    intro s t h
    obtain ⟨hsame, hvalue⟩ := hfound rfl h
    rw [MiniLisp.evaluateAtom, Run.lookup_apply, Run.lookup_apply, hsame]
    cases hget : s.environment.get? n with
    | none =>
      obtain hfault | hcut := hmissing rfl h hget
      · exact .failed hfault h
      · exact .cut hcut
    | some w => exact .returned ⟨hvalue w hget, rfl⟩ h
  | _ => exact .pure ⟨hliteral fun n hn => by (cases hn), rfl⟩

/-- An event other than a binding and a line, which speaks of values that satisfy `P` and trees that
satisfy `Q`. -/
inductive Quiet (P : Value → Prop) (Q : Sexp → Prop) : Event → Prop
  | parsed {tree : Sexp} (h : Q tree) : Quiet P Q (.parsed tree)
  | entered (form : Form) : Quiet P Q (.entered form)
  | assigned (form : Form) (name : String) : Quiet P Q (.assigned form name)
  | declared (name : String) (parameters : List String) {body : Sexp} (h : Q body) :
    Quiet P Q (.declared name parameters (body.abstracted parameters))
  | called {f : Procedure} {args : List Value} (hf : P (.function f)) (hargs : ∀ v ∈ args, P v) :
    Quiet P Q (.called f.name args)

variable (state P Q) in
/-- What is owed of two states at the steps that every run takes in its state: a name is looked up,
an event is reported, a name is bound and a procedure is declared. Only lines are left out, which
two configurations need not print alike. -/
structure StepLaws : Prop where
  atom : ∀ {v}, Q (.atom v) → (∀ n, v ≠ .symbol n) → P v
  found : ∀ {s t n}, state s t → Q (.atom (.symbol n)) →
    t.environment.get? n = s.environment.get? n ∧ ∀ v, s.environment.get? n = some v → P v
  reported : ∀ {s t e}, state s t → Quiet P Q e → state (s.reported e) (t.reported e)
  bound : ∀ {s t n v}, state s t → Q (.atom (.symbol n)) → P v →
    state { s.reported (.bound n v) with environment := s.environment.define n v }
      { t.reported (.bound n v) with environment := t.environment.define n v }
  declarations : ∀ {s t}, state s t → t.declarations = s.declarations
  procedure : ∀ {s t n body}, state s t → Q (.atom (.symbol n)) → Q body → ∀ parameters,
    P (.function (.declared s.declarations n parameters (body.abstracted parameters)))
  counted : ∀ {s t}, state s t → state { s with declarations := s.declarations + 1 }
    { t with declarations := s.declarations + 1 }

namespace StepLaws

variable (L : StepLaws state P Q)

include L

theorem report {e : Event} (he : Quiet P Q e) :
    (same state P Q fault cut).Runs (fun _ _ => True) (Run.report e) (Run.report e) :=
  fun _ _ h => .returned True.intro (L.reported h he)

theorem evaluateAtom (hundefined : ∀ {n}, Q (.atom (.symbol n)) → fault (.undefined n) (.undefined n))
    {v : Value} (hv : Q (.atom v)) :
    (same state P Q fault cut).Runs (fun v w => P v ∧ v = w) (evaluateAtom v)
      (evaluateAtom v) := by
  refine .evaluateAtom (L.atom hv) (fun hn h => ?_) fun hn _ _ => ?_
  · exact L.found h (hn ▸ hv)
  · exact .inl (hundefined (hn ▸ hv))

theorem assign {form : Form} {n : String} (hn : Q (.atom (.symbol n))) {v : Value} (hv : P v) :
    (same state P Q fault cut).Runs (fun _ _ => True) (assignAs form n v)
      (assignAs form n v) := by
  intro s t h
  rw [assignAs_apply, assignAs_apply]
  exact .returned True.intro (L.bound (L.reported h (.assigned form n)) hn hv)

theorem declare {n : String} (hn : Q (.atom (.symbol n))) {parameters : List String} {body : Sexp}
    (hbody : Q body) :
    (same state P Q fault cut).Runs (fun _ _ => True)
      (declareAs n parameters (body.abstracted parameters))
      (declareAs n parameters (body.abstracted parameters)) := by
  intro s t h
  have hreported := L.reported h (.declared n parameters hbody)
  have hbound := L.bound hreported hn (L.procedure h hn hbody parameters)
  rw [declareAs_apply, declareAs_apply, L.declarations h]
  exact .returned True.intro (L.counted hbound)

end StepLaws

/-- **Laws from steps.** Where nothing is asked of values and trees, what the states owe leaves only
faults, atoms and lines to be shown. -/
theorem StepLaws.sameLaws (L : StepLaws state (fun _ => True) (fun _ => True))
    (cut_continues : ∀ {e s t u}, cut e s t → u.Continues t → cut e s u)
    (misuse : ∀ m, fault (.misuse m) (.misuse m))
    (notCallable : ∀ v, fault (.notCallable v) (.notCallable v))
    (atom : ∀ v, (same state (fun _ => True) (fun _ => True) fault cut).Runs
      (fun v w => True ∧ v = w) (MiniLisp.evaluateAtom v) (MiniLisp.evaluateAtom v))
    (printLine : ∀ line, (same state (fun _ => True) (fun _ => True) fault cut).Runs
      (fun _ _ => True) (Run.printLine config line) (Run.printLine config' line)) :
    SameLaws state (fun _ => True) (fun _ => True) fault cut config config' where
  cut_continues := cut_continues
  hereditary := .trivial
  misuse _ := misuse _
  notCallable _ := notCallable _
  unfilled _ := misuse _
  items _ _ _ := True.intro
  filled _ _ _ := True.intro
  atom _ := atom _
  entered form := L.report (.entered form)
  called hf hargs := L.report (.called hf hargs)
  printLine _ _ := printLine _
  assign hname hv := L.assign hname hv
  declare _ hname hbody := L.declare hname hbody

/-- A program has corresponding runs under laws that hold under two configurations with the same
limit. -/
theorem SameLaws.runProgram (L : SameLaws state P Q fault cut config config')
    (steps : StepLaws state P Q) (hlimit : config'.maxDepth = config.maxDepth)
    (hoverflow : fault (.overflow config.maxDepth) (.overflow config'.maxDepth)) {tree : Sexp}
    (h : Q tree) :
    (same state P Q fault cut).Runs (fun v w => P v ∧ v = w) (runProgram config tree)
      (runProgram config' tree) := by
  have hevaluate := L.lawful.evaluate 0 (fun _ _ _ => .throw hoverflow) config.maxDepth
    (t := tree) (u := tree) ⟨h, rfl⟩
  rw [MiniLisp.runProgram, MiniLisp.runProgram, hlimit]
  exact (steps.report (.parsed h)).andThen L.cut_continues (fun _ _ _ => hevaluate)
    fun _ => evaluate_grows _ _ tree

/-- **Sessions in which the same is run** have the same answer, if neither run is cut. -/
theorem Runs.answers {F : Fault → Prop} {x y : Run Value}
    (h : (same state P Q fault cut).Runs (fun v w => P v ∧ v = w) x y)
    (hfault : ∀ {e f}, fault e f → e = f ∧ F e) (hcut : ∀ {e s t}, ¬ cut e s t) {s t : Session}
    (hst : state s.state t.state) :
    (t.run y).1 = (s.run x).1 ∧ (∀ v, (s.run x).1 = .ok v → P v) ∧
      (∀ e, (s.run x).1 = .error e → F e) ∧ state (s.run x).2.state (t.run y).2.state := by
  have key := h.answered hst
  generalize s.run x = r at key ⊢
  generalize t.run y = q at key ⊢
  cases key with
  | returned hvw hst =>
    obtain ⟨hv, rfl⟩ := hvw
    exact ⟨rfl, fun w hw => Except.ok.inj hw ▸ hv, fun e he => (by cases he), hst⟩
  | failed hef hst =>
    obtain ⟨rfl, he⟩ := hfault hef
    exact ⟨rfl, fun v hv => (by cases hv), fun f hf => Except.error.inj hf ▸ he, hst⟩
  | cut h => exact absurd h hcut

end Same

end Simulation

end MiniLisp

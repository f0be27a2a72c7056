import Mathlib.Data.List.Forall2
import MiniLisp.Proofs.Run.Growth

/-!
# Two runs side by side

A `Simulation` says how two runs correspond: which states they may be in together, which values
and trees stand for one another, and which faults may stop them together. The left run may also be
cut short by a fault of its own while the right one goes on; what the right one does after that is
only bounded by `Run.Grows`, so a cut has to be stable under growth.

`Lawful` lists what a simulation owes at the leaves of the evaluator, that is at events, primitives
and bindings. `Lawful.evaluateExpression` then carries it through every form and every call, and
`Lawful.evaluate` through whole evaluations, whose budgets may differ by a surplus on the right.
-/

namespace MiniLisp

/-- How two runs correspond. -/
structure Simulation where
  state : State → State → Prop
  value : Value → Value → Prop
  tree : Sexp → Sexp → Prop
  fault : Fault → Fault → Prop
  /-- The left run is over, by a fault in a state, and the right one has come to another state. -/
  cut : Fault → State → State → Prop

namespace Simulation

/-! ## Outcomes -/

/-- The ends of two corresponding runs whose values are related by `V`. -/
inductive Outcome (S : Simulation) (V : α → β → Prop) :
    EStateM.Result Fault State α → EStateM.Result Fault State β → Prop
  | returned {a b s t} (h : V a b) (hs : S.state s t) : Outcome S V (.ok a s) (.ok b t)
  | failed {e f s t} (h : S.fault e f) (hs : S.state s t) :
    Outcome S V (.error e s) (.error f t)
  | cut {e s r} (h : S.cut e s (endState r)) : Outcome S V (.error e s) r

/-- Two computations correspond: started in corresponding states they end alike. -/
def Runs (S : Simulation) (V : α → β → Prop) (x : Run α) (y : Run β) : Prop :=
  ∀ s t, S.state s t → S.Outcome V (x s) (y t)

/-- Two computations without effects correspond. -/
inductive Computed (S : Simulation) (V : α → β → Prop) :
    Except Misuse α → Except Misuse β → Prop
  | ok {a b} (h : V a b) : Computed S V (.ok a) (.ok b)
  | error {m n} (h : S.fault (.misuse m) (.misuse n)) : Computed S V (.error m) (.error n)

variable {S : Simulation} {V : α → β → Prop} {W : γ → δ → Prop}

namespace Runs

theorem pure {a : α} {b : β} (h : V a b) : S.Runs V (Pure.pure a) (Pure.pure b) :=
  fun _ _ hs => .returned h hs

theorem throw {e f : Fault} (h : S.fault e f) :
    S.Runs V (MonadExcept.throw e) (MonadExcept.throw f) :=
  fun _ _ hs => .failed h hs

theorem ofExcept {r : Except Misuse α} {q : Except Misuse β} (h : S.Computed V r q) :
    S.Runs V (Run.ofExcept r) (Run.ofExcept q) := by
  cases h with
  | ok h => exact pure h
  | error h => exact throw h

/-- Corresponding computations in a row correspond. Once the left one is cut, the right one may
still run its second half, on any value. -/
theorem andThen (hcut : ∀ {e s t u}, S.cut e s t → u.Continues t → S.cut e s u)
    {x : Run α} {y : Run β} {f : α → Run γ} {g : β → Run δ} (hx : S.Runs V x y)
    (hf : ∀ a b, V a b → S.Runs W (f a) (g b)) (hg : ∀ b, (g b).Grows) :
    S.Runs W (x >>= f) (y >>= g) := by
  intro s t hst
  have h := hx s t hst
  rw [Run.andThen_apply, Run.andThen_apply]
  generalize x s = r at h
  generalize y t = q at h
  cases h with
  | returned h hs => exact hf _ _ h _ _ hs
  | failed h hs => exact .failed h hs
  | cut h =>
    refine .cut (hcut h ?_)
    cases q with
    | ok b u => exact hg b u
    | error e u => exact .refl u

theorem mapM (hcut : ∀ {e s t u}, S.cut e s t → u.Continues t → S.cut e s u)
    {f : α → Run γ} {g : β → Run δ} {l : List α} {k : List β} (hl : List.Forall₂ V l k)
    (hf : ∀ a ∈ l, ∀ b, V a b → S.Runs W (f a) (g b)) (hg : ∀ b, (g b).Grows) :
    S.Runs (List.Forall₂ W) (l.mapM f) (k.mapM g) := by
  induction hl with
  | nil => exact pure .nil
  | @cons a b l k hab _ ih =>
    rw [List.mapM_cons, List.mapM_cons]
    refine andThen hcut (hf a List.mem_cons_self b hab) (fun c d hcd => ?_) fun d =>
      (Run.Grows.mapM fun b _ => hg b).andThen fun _ => .pure _
    refine andThen hcut (ih fun a ha => hf a (List.mem_cons_of_mem _ ha)) (fun cs ds hcds => ?_)
      fun _ => .pure _
    exact pure (.cons hcd hcds)

/-- Printing a line corresponds to itself where both outputs take it or neither does. -/
theorem printLine {config : Config} {line : String}
    (hsinks : ∀ {s t}, S.state s t → t.output.fault? line = s.output.fault? line)
    (hreported : ∀ {s t}, S.state s t →
      S.state (s.reported (.printed line)) (t.reported (.printed line)))
    (hwritten : ∀ {s t}, S.state s t →
      S.state { s.reported (.printed line) with output := s.output.writeLine line }
        { t.reported (.printed line) with output := t.output.writeLine line })
    (hrefused : ∀ fault, S.fault (.output fault) (.output fault)) :
    S.Runs (fun _ _ => True) (Run.printLine config line) (Run.printLine config line) := by
  intro s t h
  rw [Run.printLine_apply, Run.printLine_apply, hsinks h]
  split
  · split
    · exact .returned True.intro (hwritten h)
    · exact .failed (hrefused _) (hwritten h)
  · exact .returned True.intro (hreported h)

end Runs

/-! ## Coarser faults -/

section Coarser

variable {fault : Fault → Fault → Prop} (hfault : ∀ {e f}, S.fault e f → fault e f)

include hfault

/-- Runs that correspond still do so when less is asked of their faults. -/
theorem Runs.coarser {x : Run α} {y : Run β} (h : S.Runs V x y) :
    ({ S with fault := fault } : Simulation).Runs V x y := by
  intro s t hst
  have h := h s t hst
  generalize x s = r at h ⊢
  generalize y t = q at h ⊢
  cases h with
  | returned h hs => exact .returned h hs
  | failed h hs => exact .failed (hfault h) hs
  | cut h => exact .cut h

theorem Computed.coarser {x : Except Misuse α} {y : Except Misuse β} (h : S.Computed V x y) :
    ({ S with fault := fault } : Simulation).Computed V x y := by
  cases h with
  | ok h => exact .ok h
  | error h => exact .error (hfault h)

end Coarser

/-- Whether runs correspond does not depend on which trees do. -/
theorem Runs.withTree {x : Run α} {y : Run β} (h : S.Runs V x y) (tree : Sexp → Sexp → Prop) :
    ({ S with tree := tree } : Simulation).Runs V x y := by
  intro s t hst
  have h := h s t hst
  generalize x s = r at h ⊢
  generalize y t = q at h ⊢
  cases h with
  | returned h hs => exact .returned h hs
  | failed h hs => exact .failed h hs
  | cut h => exact .cut h

/-! ## Two sessions -/

/-- What two corresponding runs give, with the sessions that they leave. -/
inductive Answered (S : Simulation) (V : α → β → Prop) :
    Except Fault α × Session → Except Fault β × Session → Prop
  | returned {a b} {s t : Session} (h : V a b) (hs : S.state s.state t.state) :
    Answered S V (.ok a, s) (.ok b, t)
  | failed {e f} {s t : Session} (h : S.fault e f) (hs : S.state s.state t.state) :
    Answered S V (.error e, s) (.error f, t)
  | cut {e r} {s : Session} (h : S.cut e s.state r.2.state) : Answered S V (.error e, s) r

theorem Outcome.answered {s t : Session} {x : Run α} {y : Run β}
    (h : S.Outcome V (x s.state) (y t.state)) : S.Answered V (s.run x) (t.run y) := by
  have hend := Session.state_run t y
  generalize hx : x s.state = r at h
  generalize hy : y t.state = q at h hend
  cases h with
  | returned hab hst =>
    rw [Session.run_of_ok hx, Session.run_of_ok hy]
    exact .returned hab hst
  | failed hef hst =>
    rw [Session.run_of_error hx, Session.run_of_error hy]
    exact .failed hef hst
  | cut h =>
    rw [Session.run_of_error hx]
    exact .cut (hend ▸ h)

theorem Runs.answered {x : Run α} {y : Run β} (h : S.Runs V x y) {s t : Session}
    (hst : S.state s.state t.state) : S.Answered V (s.run x) (t.run y) :=
  (h s.state t.state hst).answered

/-! ## The laws of a simulation -/

/-- Procedures that correspond whenever they are called: a primitive to itself, and a declared
procedure to one whose bodies correspond once they are filled. -/
inductive Callee (S : Simulation) : Procedure → Procedure → Prop
  | primitive (p : Primitive) : Callee S (.primitive p) (.primitive p)
  | declared {id id' name name' parameters parameters' template template'}
    (length : parameters.length = parameters'.length)
    (filled : ∀ {args args'}, List.Forall₂ S.value args args' →
      args.length = parameters.length → S.tree (template.filled args) (template'.filled args'))
    (count : ∀ n, S.fault (.misuse (.argumentCount name parameters.length n))
      (.misuse (.argumentCount name' parameters'.length n))) :
    Callee S (.declared id name parameters template) (.declared id' name' parameters' template')

/-- The targets of two assignments correspond: they are the same name, which stands in corresponding
trees, or they are refused together. -/
def Targets (S : Simulation) (form : Form) (t u : Sexp) : Prop :=
  S.Computed (fun n m => n = m ∧ ∃ u, S.tree (.atom (.symbol n)) u) (expectSymbol form t)
    (expectSymbol form u)

/-- Expressions that are evaluated in step: both empty, both the same form, two forms whose rules are
in step, or both applications. -/
inductive InStep (S : Simulation) : List Sexp → List Sexp → Prop
  | nil : InStep S [] []
  | conditional {head head' operands operands'} (h : head.form? = some .conditional)
    (h' : head'.form? = some .conditional) (trees : List.Forall₂ S.tree operands operands') :
    InStep S (head :: operands) (head' :: operands')
  | assignment {head head' target target' operand operand'} (form : Form)
    (hform : form = .define ∨ form = .set) (h : head.form? = some form)
    (h' : head'.form? = some form) (targets : S.Targets form target target')
    (tree : S.tree operand operand') :
    InStep S [head, target, operand] [head', target', operand']
  | refusal {head head' operands operands'} (form : Form)
    (hform : form = .define ∨ form = .set) (h : head.form? = some form)
    (h' : head'.form? = some form) (count : operands.length ≠ 2)
    (length : operands'.length = operands.length) :
    InStep S (head :: operands) (head' :: operands')
  | declaration {head head' operands operands'} (h : head.form? = some .function)
    (h' : head'.form? = some .function)
    (run : S.Runs S.value (evaluateDeclaration operands) (evaluateDeclaration operands')) :
    InStep S (head :: operands) (head' :: operands')
  | forms {head head' operands operands'} (form form' : Form) (h : head.form? = some form)
    (h' : head'.form? = some form')
    (entered : S.Runs (fun _ _ => True) (Run.report (.entered form)) (Run.report (.entered form')))
    (run : ∀ {eval eval' : Sexp → Run Value},
      (∀ t u, S.tree t u → S.Runs S.value (eval t) (eval' u)) → (∀ u, (eval' u).Grows) →
        S.Runs S.value (evaluateForm eval form operands) (evaluateForm eval' form' operands')) :
    InStep S (head :: operands) (head' :: operands')
  | application {head head' operands operands'} (h : head.form? = none) (h' : head'.form? = none)
    (tree : S.tree head head') (trees : List.Forall₂ S.tree operands operands') :
    InStep S (head :: operands) (head' :: operands')

/-- What a simulation of evaluations under two configurations owes at the leaves. -/
structure Lawful (S : Simulation) (config config' : Config) : Prop where
  cut_continues : ∀ {e s t u}, S.cut e s t → u.Continues t → S.cut e s u
  none : S.value .none .none
  list : ∀ {items items'}, List.Forall₂ S.value items items' →
    S.value (.list items) (.list items')
  truth : ∀ {v w}, S.value v w → (v = .boolean true ↔ w = .boolean true)
  callee : ∀ {v w}, S.value v w →
    (∃ f g, v = .function f ∧ w = .function g ∧ S.Callee f g) ∨
      (∀ f, v ≠ .function f) ∧ (∀ g, w ≠ .function g) ∧
        S.fault (.notCallable v) (.notCallable w)
  operandCount : ∀ form expected got, S.fault (.misuse (.operandCount form expected got))
    (.misuse (.operandCount form expected got))
  entered : ∀ form, S.Runs (fun _ _ => True) (Run.report (.entered form))
    (Run.report (.entered form))
  assign : ∀ {form name t v w}, S.tree (.atom (.symbol name)) t → S.value v w →
    S.Runs (fun _ _ => True) (assignAs form name v) (assignAs form name w)
  called : ∀ {f g args args'}, S.value (.function f) (.function g) →
    List.Forall₂ S.value args args' →
    S.Runs (fun _ _ => True) (Run.report (.called f.name args)) (Run.report (.called g.name args'))
  operation : ∀ {op args args'}, List.Forall₂ S.value args args' →
    S.Computed S.value (Operation.compute op args) (Operation.compute op args')
  println : ∀ {args args'}, List.Forall₂ S.value args args' →
    S.Runs S.value (printArguments config args) (printArguments config' args')
  apply : ∀ {args args'}, List.Forall₂ S.value args args' →
    S.Computed (fun p q => S.value (.function p.1) (.function q.1) ∧
      List.Forall₂ S.value p.2 q.2) (applyCall args) (applyCall args')
  map : ∀ {args args'}, List.Forall₂ S.value args args' →
    S.Computed (fun p q => S.value (.function p.1) (.function q.1) ∧
      List.Forall₂ (List.Forall₂ S.value) p.2 q.2) (mapCalls args) (mapCalls args')
  atom : ∀ {v u}, S.tree (.atom v) u →
    ∃ w, u = .atom w ∧ S.Runs S.value (evaluateAtom v) (evaluateAtom w)
  expression : ∀ {items u}, S.tree (.expression items) u →
    ∃ items', u = .expression items' ∧ S.InStep items items'
  placeholder : ∀ {i u}, S.tree (.placeholder i) u →
    ∃ j, u = .placeholder j ∧ S.fault (.misuse (.unfilled i)) (.misuse (.unfilled j))

/-! ## Evaluation in step -/

namespace Lawful

variable {S : Simulation} {config config' : Config} (L : S.Lawful config config')

include L in
theorem callee_function {f g : Procedure} (h : S.value (.function f) (.function g)) :
    S.Callee f g := by
  rcases L.callee h with ⟨f', g', hf, hg, hfg⟩ | ⟨hf, -, -⟩
  · cases hf
    cases hg
    exact hfg
  · exact absurd rfl (hf f)

variable {eval eval' : Sexp → Run Value}
  (heval : ∀ t u, S.tree t u → S.Runs S.value (eval t) (eval' u))
  (hgrow : ∀ u, (eval' u).Grows)

include L heval hgrow

/-- Corresponding calls run in step. The calls that `map` and `apply` make have smaller
arguments, and those arguments correspond. -/
theorem call {f g : Procedure} {args args' : List Value}
    (hfg : S.value (.function f) (.function g)) (hargs : List.Forall₂ S.value args args') :
    S.Runs S.value (MiniLisp.call config eval f args) (MiniLisp.call config' eval' g args') := by
  -- on the size of the arguments, as a call that `map` makes is no part of its own call
  induction hn : Value.sizes args using Nat.strongRecOn generalizing f g args args' with
  | _ n ih =>
    subst hn
    have hcalled := L.called hfg hargs
    cases L.callee_function hfg with
    | primitive p =>
      cases p with
      | operation op =>
        rw [call_operation, call_operation]
        exact hcalled.andThen L.cut_continues (fun _ _ _ => .ofExcept (L.operation hargs))
          fun _ => .ofExcept _
      | println =>
        rw [call_println, call_println]
        exact hcalled.andThen L.cut_continues (fun _ _ _ => L.println hargs)
          fun _ => printArguments_grows config' args'
      | apply =>
        rw [call_apply, call_apply]
        refine hcalled.andThen L.cut_continues (fun _ _ _ => ?_) fun _ => ?_
        · have h := L.apply hargs
          generalize applyCall args' = q at h ⊢
          cases hp : applyCall args with
          | error m =>
            rw [hp] at h
            cases h with
            | error h => exact .throw h
          | ok p =>
            rw [hp] at h
            cases h with
            | ok h => exact ih _ (sizes_lt_of_applyCall hp) h.1 h.2 rfl
        · cases applyCall args' with
          | error m => exact .throw _
          | ok q => exact call_grows hgrow _ _
      | map =>
        rw [call_map, call_map]
        refine hcalled.andThen L.cut_continues (fun _ _ _ => ?_) fun _ => ?_
        · have h := L.map hargs
          generalize mapCalls args' = q at h ⊢
          cases hp : mapCalls args with
          | error m =>
            rw [hp] at h
            cases h with
            | error h => exact .throw h
          | ok p =>
            rw [hp] at h
            cases h with
            | ok h =>
              refine Runs.andThen L.cut_continues ?_ (fun _ _ hv => .pure (L.list hv))
                fun _ => .pure _
              refine .mapM L.cut_continues h.2 (fun row hrow _ h' => ?_) fun _ =>
                call_grows hgrow _ _
              exact ih _ (sizes_lt_of_mapCalls hp hrow) h.1 h' rfl
        · cases mapCalls args' with
          | error m => exact .throw _
          | ok q => exact Run.Grows.andThen (.mapM fun _ _ => call_grows hgrow _ _) fun _ => .pure _
    | @declared _ _ _ _ parameters _ _ _ length filled count =>
      rw [call_declared, call_declared]
      have hlength := hargs.length_eq
      refine hcalled.andThen L.cut_continues (fun _ _ _ => ?_) fun _ => ?_
      · by_cases h : args.length = parameters.length
        · rw [if_pos h, if_pos (by rw [← hlength, h, length])]
          exact heval _ _ (filled hargs h)
        · rw [if_neg h, if_neg (by rw [← hlength, ← length]; exact h), ← hlength]
          exact .throw (count _)
      · split
        · exact hgrow _
        · exact .throw _

theorem evaluateConditional {operands operands' : List Sexp}
    (h : List.Forall₂ S.tree operands operands') :
    S.Runs S.value (MiniLisp.evaluateConditional eval operands)
      (MiniLisp.evaluateConditional eval' operands') := by
  match h with
  | .cons test (.cons yes (.cons no .nil)) =>
    refine (heval _ _ test).andThen L.cut_continues (fun v w hvw => ?_) fun w => ?_
    · have htruth := L.truth hvw
      by_cases hv : v = .boolean true
      · rw [hv, htruth.1 hv]
        exact heval _ _ yes
      · have hw : w ≠ .boolean true := fun hw => hv (htruth.2 hw)
        split
        · exact absurd rfl hv
        · exact heval _ _ no
    · split
      · exact hgrow _
      · exact hgrow _
  | .nil => exact .throw (L.operandCount _ _ _)
  | .cons _ .nil => exact .throw (L.operandCount _ _ _)
  | .cons _ (.cons _ .nil) => exact .throw (L.operandCount _ _ _)
  | .cons _ (.cons _ (.cons _ (.cons _ h))) =>
    simp only [MiniLisp.evaluateConditional, List.length_cons, h.length_eq]
    exact .throw (L.operandCount _ _ _)

theorem evaluateAssignment (form : Form) {target target' operand operand' : Sexp}
    (htarget : S.Targets form target target') (h : S.tree operand operand') :
    S.Runs S.value (MiniLisp.evaluateAssignment eval form [target, operand])
      (MiniLisp.evaluateAssignment eval' form [target', operand']) := by
  rw [evaluateAssignment_eq, evaluateAssignment_eq]
  refine Runs.andThen L.cut_continues (.ofExcept htarget) (fun name _ hname => ?_)
    fun name => (hgrow _).andThen fun w => (assignAs_grows _ _ _).andThen fun _ => .pure _
  obtain ⟨rfl, u, hname⟩ := hname
  refine (heval _ _ h).andThen L.cut_continues (fun v w hvw => ?_) fun w =>
    (assignAs_grows _ _ _).andThen fun _ => .pure _
  exact (L.assign hname hvw).andThen L.cut_continues (fun _ _ _ => .pure L.none) fun _ => .pure _

omit heval hgrow in
theorem evaluateAssignment_refusal (form : Form) {operands operands' : List Sexp}
    (count : operands.length ≠ 2) (length : operands'.length = operands.length) :
    S.Runs S.value (MiniLisp.evaluateAssignment eval form operands)
      (MiniLisp.evaluateAssignment eval' form operands') := by
  rw [evaluateAssignment_of_length count, evaluateAssignment_of_length (length ▸ count), length]
  exact .throw (L.operandCount _ _ _)

/-- **Expressions in step** have corresponding runs, if their parts do. -/
theorem evaluateExpression {items items' : List Sexp} (h : S.InStep items items') :
    S.Runs S.value (MiniLisp.evaluateExpression config eval items)
      (MiniLisp.evaluateExpression config' eval' items') := by
  cases h with
  | nil => exact .pure (L.list .nil)
  | conditional h h' trees =>
    simp only [MiniLisp.evaluateExpression, h, h']
    exact (L.entered _).andThen L.cut_continues
      (fun _ _ _ => L.evaluateConditional heval hgrow trees)
      fun _ => evaluateConditional_grows hgrow _
  | assignment form hform h h' targets tree =>
    simp only [MiniLisp.evaluateExpression, h, h']
    refine (L.entered _).andThen L.cut_continues (fun _ _ _ => ?_)
      fun _ => evaluateForm_grows hgrow _ _
    rcases hform with rfl | rfl
    · exact L.evaluateAssignment heval hgrow .define targets tree
    · exact L.evaluateAssignment heval hgrow .set targets tree
  | refusal form hform h h' count length =>
    simp only [MiniLisp.evaluateExpression, h, h']
    refine (L.entered _).andThen L.cut_continues (fun _ _ _ => ?_)
      fun _ => evaluateForm_grows hgrow _ _
    rcases hform with rfl | rfl
    · exact L.evaluateAssignment_refusal .define count length
    · exact L.evaluateAssignment_refusal .set count length
  | declaration h h' run =>
    simp only [MiniLisp.evaluateExpression, h, h']
    exact (L.entered _).andThen L.cut_continues (fun _ _ _ => run)
      fun _ => evaluateDeclaration_grows _
  | forms form form' h h' entered run =>
    simp only [MiniLisp.evaluateExpression, h, h']
    exact entered.andThen L.cut_continues (fun _ _ _ => run heval hgrow)
      fun _ => evaluateForm_grows hgrow _ _
  | application h h' tree trees =>
    simp only [MiniLisp.evaluateExpression, h, h']
    refine (heval _ _ tree).andThen L.cut_continues (fun v w hvw => ?_) fun w => ?_
    · rcases L.callee hvw with ⟨f, g, rfl, rfl, -⟩ | ⟨hv, hw, hfault⟩
      · refine Runs.andThen L.cut_continues
          (.mapM L.cut_continues trees (fun t _ u htu => heval t u htu) hgrow)
          (fun args args' hargs => L.call heval hgrow hvw hargs) fun _ => call_grows hgrow _ _
      · split
        · exact absurd rfl (hv _)
        · exact .throw hfault
    · split
      · exact Run.Grows.andThen (.mapM fun _ _ => hgrow _) fun _ => call_grows hgrow _ _
      · exact .throw _

omit heval hgrow

/-- **Evaluations in step.** Where the left budget is used up the right one has `surplus` left. -/
theorem evaluate (surplus : Nat)
    (hover : ∀ t u, S.tree t u → S.Runs S.value (throw (.overflow config.maxDepth))
      (MiniLisp.evaluate config' surplus u)) (budget : Nat) {t u : Sexp} (h : S.tree t u) :
    S.Runs S.value (MiniLisp.evaluate config budget t)
      (MiniLisp.evaluate config' (budget + surplus) u) := by
  induction budget generalizing t u with
  | zero =>
    -- the left run overflows here, whatever the right one does with its surplus
    rw [Nat.zero_add]
    exact hover t u h
  | succ budget ih =>
    rw [Nat.succ_add]
    cases t with
    | atom v =>
      obtain ⟨w, rfl, hvw⟩ := L.atom h
      exact hvw
    | expression items =>
      obtain ⟨items', rfl, hitems⟩ := L.expression h
      exact L.evaluateExpression (fun t u => ih) (evaluate_grows _ _) hitems
    | placeholder i =>
      obtain ⟨j, rfl, hij⟩ := L.placeholder h
      exact .throw hij

end Lawful

end Simulation

end MiniLisp

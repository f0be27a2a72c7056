import MiniLisp.Proofs.Run.Alike
import MiniLisp.Proofs.Tree.Interchange

/-!
# `define` and `set` are one form

Which of the two forms a program uses to bind a value makes no difference to it, not even in the
body of a procedure: both bind the name in the one environment that there is. A program has the same
output, the same result and the same environment when some of its `define` are replaced by `set` and
the other way round (`Session.evaluateTree_interchanged`), up to the heads in the templates of
procedures and to the wording of faults, which name the form.

It does make a difference where a head is taken for a name. That may happen when a program calls a
procedure with the symbol `function` in a list that it holds, so that an application in the body of
the procedure becomes a declaration (`Session.evaluateTree_interchanged_symbol`).
-/

namespace MiniLisp

/-- Values that are the same up to the heads `define` and `set` in the templates of procedures. -/
def Value.Interchanged : Value → Value → Prop :=
  Value.Alike Inert (Procedure.Interchanged Inert)

namespace Simulation

/-- Runs of interchanged trees. Faults are of the same kind. -/
def interchanged : Simulation where
  state := State.Alike Value.Interchanged
  value := Value.Interchanged
  tree := Sexp.Interchanged Inert (Procedure.Interchanged Inert)
  fault e f := e.kind = f.kind
  cut _ _ _ := False

theorem callee_interchanged {f g : Procedure} (h : Procedure.Interchanged Inert f g) :
    interchanged.Callee f g := by
  cases h with
  | primitive p => exact .primitive p
  | declared h => exact .declared rfl (fun hargs _ => h.filled (fun _ hn => hn) hargs) fun _ => rfl

/-! ## Binding -/

theorem assignAs_interchanged (form form' : Form) (n : String) {v w : Value}
    (hvw : Value.Interchanged v w) :
    interchanged.Runs (fun _ _ => True) (assignAs form n v) (assignAs form' n w) := by
  intro s t hst
  rw [assignAs_apply, assignAs_apply]
  exact .returned True.intro (((hst.reported _ _).reported _ _).define n hvw)

theorem declareAs_interchanged (n : String) (parameters : List String) {template template' : Sexp}
    (h : interchanged.tree template template') :
    interchanged.Runs (fun _ _ => True) (declareAs n parameters template)
      (declareAs n parameters template') := by
  intro s t hst
  rw [declareAs_apply, declareAs_apply, hst.declarations]
  have hvalue : Value.Interchanged (.function (.declared s.declarations n parameters template))
      (.function (.declared s.declarations n parameters template')) := .function (.declared h)
  exact .returned True.intro ⟨(hst.define n hvalue).environment, hst.output, rfl⟩

/-! ## Forms -/

/-- Where a name is expected, interchanged trees are the same name or both refused. -/
theorem target_interchanged {t u : Sexp} (h : interchanged.tree t u) (form form' : Form) :
    interchanged.Computed (· = ·) (expectSymbol form t) (expectSymbol form' u) := by
  rcases h.name_or_refused with ⟨n, -, rfl, rfl⟩ | ⟨ht, hu⟩
  · exact .ok rfl
  · rw [expectSymbol_of_ne ht, expectSymbol_of_ne hu]
    exact .error rfl

/-- The two forms follow one rule. -/
theorem assignment_interchanged {form form' : Form} (hform : form = .define ∨ form = .set)
    (hform' : form' = .define ∨ form' = .set) {operands operands' : List Sexp}
    (h : List.Forall₂ interchanged.tree operands operands') {eval eval' : Sexp → Run Value}
    (heval : ∀ t u, interchanged.tree t u → interchanged.Runs interchanged.value (eval t) (eval' u))
    (hgrow : ∀ u, (eval' u).Grows) :
    interchanged.Runs interchanged.value (evaluateForm eval form operands)
      (evaluateForm eval' form' operands') := by
  have hrule : ∀ {form : Form}, form = .define ∨ form = .set → ∀ eval operands,
      evaluateForm eval form operands = evaluateAssignment eval form operands := by
    rintro _ (rfl | rfl) eval operands <;> rfl
  rw [hrule hform, hrule hform']
  by_cases hlength : operands.length = 2
  · match h with
    | .cons htarget (.cons hoperand .nil) =>
      rw [evaluateAssignment_eq, evaluateAssignment_eq]
      refine Runs.andThen (fun h _ => h) (.ofExcept (target_interchanged htarget form form'))
        (fun n _ hn => ?_) fun n => (hgrow _).andThen fun w =>
          (assignAs_grows _ _ _).andThen fun _ => .pure _
      subst hn
      refine (heval _ _ hoperand).andThen (fun h _ => h) (fun v w hvw => ?_) fun w =>
        (assignAs_grows _ _ _).andThen fun _ => .pure _
      exact (assignAs_interchanged form form' n hvw).andThen (fun h _ => h)
        (fun _ _ _ => .pure .none) fun _ => .pure _
  · rw [evaluateAssignment_of_length hlength,
      evaluateAssignment_of_length (h.length_eq ▸ hlength)]
    exact .throw rfl

/-- Interchanged declarations make interchanged procedures. -/
theorem declaration_interchanged {operands operands' : List Sexp}
    (h : List.Forall₂ interchanged.tree operands operands')
    (hformals : ∀ target formals body, operands = [target, formals, body] →
      ¬formals.IsAssignment) :
    interchanged.Runs interchanged.value (evaluateDeclaration operands)
      (evaluateDeclaration operands') := by
  by_cases hlength : operands.length = 3
  · match h with
    | .cons htarget (.cons hparameters (.cons hbody .nil)) =>
      rw [evaluateDeclaration_eq, evaluateDeclaration_eq]
      refine Runs.andThen (fun h _ => h) (.ofExcept (target_interchanged htarget .function .function))
        (fun n _ hn => ?_) fun _ => (Run.Grows.ofExcept _).andThen fun _ =>
          (declareAs_grows _ _ _).andThen fun _ => .pure _
      subst hn
      rcases hparameters.parameters_or_refused (hformals _ _ _ rfl) with
        ⟨parameters, hnames, ht, hu⟩ | ⟨m, m', ht, hu⟩
      · rw [ht, hu]
        exact (declareAs_interchanged n parameters (hbody.abstracted hnames)).andThen
          (fun h _ => h) (fun _ _ _ => .pure .none) fun _ => .pure _
      · rw [ht, hu]
        exact .throw rfl
  · rw [evaluateDeclaration_of_length hlength,
      evaluateDeclaration_of_length (h.length_eq ▸ hlength)]
    exact .throw rfl

/-- Interchanged expressions are evaluated in step. -/
theorem inStep_interchanged {items items' : List Sexp}
    (h : interchanged.tree (.expression items) (.expression items')) :
    interchanged.InStep items items' := by
  cases h with
  | assignment hn hn' length h =>
    obtain ⟨form, hbinds, hform⟩ := exists_form_of_binding hn
    obtain ⟨form', hbinds', hform'⟩ := exists_form_of_binding hn'
    exact .forms form form' hform hform' (fun _ _ hst => .returned True.intro (hst.reported _ _))
      (assignment_interchanged hbinds hbinds' (List.forall₂_iff_zip.2 ⟨length, fun hp => h _ hp⟩))
  | expression hformals length h =>
    have hitems := List.forall₂_iff_zip.2 ⟨length, fun hp => h _ hp⟩
    cases hitems with
    | nil => exact .nil
    | @cons head head' operands operands' hhead hoperands =>
      have hhead' := hhead.form?_eq
      cases hform : head.form? with
      | none => exact .application hform (hhead' ▸ hform) hhead hoperands
      | some form =>
        cases form with
        | conditional => exact .conditional hform (hhead' ▸ hform) hoperands
        | define => exact absurd hform hhead.form?_ne.1
        | set => exact absurd hform hhead.form?_ne.2
        | function =>
          refine .declaration hform (hhead' ▸ hform)
            (declaration_interchanged hoperands fun target formals body hoperands => ?_)
          exact hformals target formals body (by rw [Sexp.eq_of_form? hform, hoperands])

/-! ## The laws -/

/-- **Runs of interchanged trees** satisfy the laws of a simulation. -/
theorem interchanged_lawful (config : Config) : interchanged.Lawful config config := by
  have hstates : AlikeStates (State.Alike Value.Interchanged) Inert
      (Procedure.Interchanged Inert) := alikeStates (Procedure.Interchanged.faithful Inert)
  refine hstates.lawful (fun h => h.1) config callee_interchanged (fun h => ?_) (fun h => ?_)
    fun h => ?_
  · cases h with
    | name h => exact .name _
    | atom hv h => exact .atom hv h
  · cases h with
    | assignment hn hn' length h => exact ⟨_, rfl, inStep_interchanged (.assignment hn hn' length h)⟩
    | expression hformals length h =>
      exact ⟨_, rfl, inStep_interchanged (.expression hformals length h)⟩
  · cases h with
    | placeholder index => rfl

theorem evaluate_interchanged (config : Config) {t u : Sexp} (h : interchanged.tree t u) :
    interchanged.Runs Value.Interchanged (evaluate config config.maxDepth t)
      (evaluate config config.maxDepth u) :=
  (interchanged_lawful config).evaluate 0 (fun _ _ _ => .throw rfl) config.maxDepth h

end Simulation

/-! ## Sessions -/

/-- Two results between which it makes no difference that heads are interchanged: values that are
the same up to that, or faults of the same kind. -/
inductive Interchange.SameResult : Except Fault Value → Except Fault Value → Prop
  | ok {v w : Value} (h : v.Interchanged w) : SameResult (.ok v) (.ok w)
  | error {e f : Fault} (kind : e.kind = f.kind) : SameResult (.error e) (.error f)

namespace Session

/-- **`define` and `set` are one form.** In a fresh session, programs that differ in which of the
two stands at the heads of expressions have the same output and the same result, and leave
environments that bind the same names to the same values, where procedures may differ in the same
way. Beside the heads, the two names stand nowhere in the programs; nor do they, or the name of the
form that declares, in the values that the programs hold. -/
theorem evaluateTree_interchanged (config : Config) (sink : Sink) {t u : Sexp}
    (h : t.Interchanged Inert (Procedure.Interchanged Inert) u) :
    let plain := (start config sink).evaluateTree t
    let other := (start config sink).evaluateTree u
    Interchange.SameResult plain.1 other.1 ∧ other.2.state.output = plain.2.state.output ∧
      ∀ n, Option.Rel Value.Interchanged (plain.2.environment.get? n)
        (other.2.environment.get? n) := by
  intro plain other
  have hstate : State.Alike Value.Interchanged (start config sink).state
      (start config sink).state := by
    refine ⟨fun n => ?_, rfl, rfl⟩
    cases hv : (start config sink).state.environment.get? n with
    | none => exact .none
    | some v =>
      exact .some (Environment.forall_fresh (P := fun v => Value.Interchanged v v) .number
        (fun p => .function (.primitive p)) n v hv)
  have key : Simulation.interchanged.Answered Value.Interchanged plain other :=
    (Simulation.evaluate_interchanged config h).answered hstate
  clear_value plain other
  cases key with
  | returned hvw hst => exact ⟨.ok hvw, hst.output, hst.environment⟩
  | failed hef hst => exact ⟨.error hef, hst.output, hst.environment⟩
  | cut h => exact h.elim

/-- A procedure that binds, called by `map`, and a binding of its own at the end. -/
theorem evaluateTree_interchanged_map :
    let name (n : String) : Sexp := .atom (.symbol n)
    let program (inner outer : String) : Sexp := .expression
      [name "begin",
        .declaration (name "keep") ["x"] (.expression [name inner, name "kept", name "x"]),
        .expression [name "map", name "keep", .expression [name "list", .atom (.boolean true),
          .atom (.boolean false)]],
        .expression [name outer, name "again", name "keep"]]
    let plain := (start .standard .unlimited).evaluateTree (program "define" "set")
    let other := (start .standard .unlimited).evaluateTree (program "set" "define")
    (program "define" "set").Interchanged Inert (Procedure.Interchanged Inert)
        (program "set" "define") ∧
      Interchange.SameResult plain.1 other.1 ∧ other.2.state.output = plain.2.state.output ∧
      (∀ n, Option.Rel Value.Interchanged (plain.2.environment.get? n)
        (other.2.environment.get? n)) ∧
      plain.2.environment.get? "kept" = some (.boolean false) := by
  intro name program plain other
  have hname : ∀ {n : String}, n ∉ bindingNames →
      (name n).Interchanged Inert (Procedure.Interchanged Inert) (name n) := .name
  have hprogram : (program "define" "set").Interchanged Inert (Procedure.Interchanged Inert)
      (program "set" "define") := by
    refine .application (by decide) (hname (by decide)) (.cons ?_ (.cons ?_ (.cons ?_ .nil)))
    · refine .declaration (by decide) (hname (by decide)) ?_
      exact .operands (by decide) (by decide)
        (.cons (hname (by decide)) (.cons (hname (by decide)) .nil))
    · refine .application (by decide) (hname (by decide)) (.cons (hname (by decide)) (.cons ?_ .nil))
      exact .application (by decide) (hname (by decide))
        (.cons (.atom nofun (.boolean true)) (.cons (.atom nofun (.boolean false)) .nil))
    · exact .operands (by decide) (by decide)
        (.cons (hname (by decide)) (.cons (hname (by decide)) .nil))
  obtain ⟨hresult, houtput, henvironment⟩ :=
    evaluateTree_interchanged .standard .unlimited hprogram
  exact ⟨hprogram, hresult, houtput, henvironment, by with_unfolding_all rfl⟩

/-- A symbol in a list that a program holds may be the name of the form that declares. Here it is
passed to a procedure, whose body then is a declaration with a list of parameters that begins with
one of the two names, and that name is a parameter in the body. -/
theorem evaluateTree_interchanged_symbol :
    let name (n : String) : Sexp := .atom (.symbol n)
    let program (n : String) : Sexp := .expression
      [name "begin",
        .declaration (name "make") ["f"] (.expression [name "f", name "pick",
          .expression [name n, name "x"], .expression [name "define", name "y", .atom .none]]),
        .expression [name "make", .expression [name "head", .atom (.list [.symbol "function"])]],
        .expression [name "pick", .atom (.boolean true), .atom (.boolean false)]]
    let result (n : String) := ((start .standard .unlimited).evaluateTree (program n)).1
    (program "define").Interchanged (· ∉ bindingNames) (Procedure.Interchanged (· ∉ bindingNames))
        (program "set") ∧
      result "define" = .error (.notCallable (.boolean true)) ∧ result "set" = .ok .none ∧
      ¬Interchange.SameResult (result "define") (result "set") := by
  intro name program result
  have hname : ∀ {n : String}, n ∉ bindingNames → (name n).Interchanged (· ∉ bindingNames)
      (Procedure.Interchanged (· ∉ bindingNames)) (name n) := .name
  have hprogram : (program "define").Interchanged (· ∉ bindingNames)
      (Procedure.Interchanged (· ∉ bindingNames)) (program "set") := by
    refine .application (by decide) (hname (by decide)) (.cons ?_ (.cons ?_ (.cons ?_ .nil)))
    · refine .declaration (by decide) (hname (by decide)) ?_
      refine .application (by decide) (hname (by decide))
        (.cons (hname (by decide)) (.cons ?_ (.cons ?_ .nil)))
      · exact .operands (by decide) (by decide) (.cons (hname (by decide)) .nil)
      · exact .operands (by decide) (by decide)
          (.cons (hname (by decide)) (.cons (.atom nofun .none) .nil))
    · refine .application (by decide) (hname (by decide)) (.cons ?_ .nil)
      refine .application (by decide) (hname (by decide)) (.cons (.atom nofun ?_) .nil)
      exact Value.Alike.list_iff.2 (.cons (.symbol (by decide)) .nil)
    · exact .application (by decide) (hname (by decide))
        (.cons (.atom nofun (.boolean true)) (.cons (.atom nofun (.boolean false)) .nil))
  have hdefine : result "define" = .error (.notCallable (.boolean true)) := by
    with_unfolding_all rfl
  have hset : result "set" = .ok .none := by
    with_unfolding_all rfl
  refine ⟨hprogram, hdefine, hset, ?_⟩
  rw [hdefine, hset]
  exact nofun

end Session

end MiniLisp

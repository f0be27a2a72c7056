import MiniLisp.Proofs.Run.Basic
import MiniLisp.Proofs.Tree.Renaming

/-!
# How an expression fails

A failing expression leaves nothing half done. A malformed form is refused as soon as it is entered;
otherwise the trees inside are evaluated from left to right, and where one of them fails the run
ends, in the state that it has left. `Failure` lists the ways to fail, each with its state, and
there are no others (`evaluateExpression_eq_error_iff`).

All of this is for any evaluation `eval` of the trees inside, and so for one that puts down what it
is asked for, or fails whenever it is asked: a result that is the same for all of them is found
without evaluating anything.
-/

namespace MiniLisp

/-! ## Malformed forms -/

/-- The tree is refused where a name is expected. -/
theorem expectSymbol_of_ne {tree : Sexp} (h : ∀ name, tree ≠ .atom (.symbol name)) (form : Form) :
    expectSymbol form tree = .error (.notASymbol form tree) := by
  cases tree with
  | atom v => exact expectSymbol_atom (fun name hv => h name (congrArg Sexp.atom hv)) form
  | expression items => rfl
  | placeholder index => rfl

/-- Nothing but a list of names is taken for a list of parameters. -/
theorem eq_of_expectParameters {tree : Sexp} {names : List String}
    (h : expectParameters tree = .ok names) :
    tree = .expression (names.map fun n => .atom (.symbol n)) := by
  cases tree with
  | expression items =>
    rw [expectParameters] at h
    induction items generalizing names with
    | nil =>
      cases h
      rfl
    | cons item items ih =>
      rw [List.mapM_cons] at h
      by_cases hitem : ∃ n, item = .atom (.symbol n)
      · obtain ⟨n, rfl⟩ := hitem
        cases hrest : items.mapM (expectSymbol .function) with
        | error m =>
          rw [hrest] at h
          cases h
        | ok rest =>
          rw [hrest] at h
          cases h
          rw [List.map_cons, ← Sexp.expression.inj (ih hrest)]
      · rw [expectSymbol_of_ne fun n hn => hitem ⟨n, hn⟩] at h
        cases h
  | atom v => cases h
  | placeholder index => cases h

namespace Form

/-- Operands that a form cannot have: there are too few or too many, there is no name where the
form binds one, or there is no list of names where the parameters stand. -/
inductive Malformed : Form → List Sexp → Prop
  | count {form : Form} {operands : List Sexp} (h : operands.length ≠ form.arity) :
      Malformed form operands
  | target {form : Form} {target : Sexp} {rest : List Sexp} (hform : form ≠ .conditional)
      (h : ∀ name, target ≠ .atom (.symbol name)) : Malformed form (target :: rest)
  | parameters {target formals body : Sexp}
      (h : ∀ names : List String, formals ≠ .expression (names.map fun n => .atom (.symbol n))) :
      Malformed .function [target, formals, body]

/-- Operands that a form can have. -/
inductive WellFormed : Form → List Sexp → Prop
  | conditional (test yes no : Sexp) : WellFormed .conditional [test, yes, no]
  | assignment {form : Form} (h : form = .define ∨ form = .set) (name : String)
      (operand : Sexp) : WellFormed form [.atom (.symbol name), operand]
  | declaration (name : String) (names : List String) (body : Sexp) :
      WellFormed .function
        [.atom (.symbol name), .expression (names.map fun n => .atom (.symbol n)), body]

theorem malformed_or_wellFormed (form : Form) (operands : List Sexp) :
    form.Malformed operands ∨ form.WellFormed operands := by
  by_cases hcount : operands.length = form.arity
  · by_cases htarget : form = .conditional ∨
        ∃ name rest, operands = Sexp.atom (.symbol name) :: rest
    · match form, operands, hcount with
      | .conditional, [test, yes, no], _ => exact .inr (.conditional test yes no)
      | .define, [target, operand], _ =>
        obtain hform | ⟨name, rest, h⟩ := htarget
        · cases hform
        · cases h
          exact .inr (.assignment (.inl rfl) name operand)
      | .set, [target, operand], _ =>
        obtain hform | ⟨name, rest, h⟩ := htarget
        · cases hform
        · cases h
          exact .inr (.assignment (.inr rfl) name operand)
      | .function, [target, formals, body], _ =>
        obtain hform | ⟨name, rest, h⟩ := htarget
        · cases hform
        · cases h
          by_cases hformals : ∃ names : List String,
              formals = .expression (names.map fun n => .atom (.symbol n))
          · obtain ⟨names, rfl⟩ := hformals
            exact .inr (.declaration name names body)
          · exact .inl (.parameters fun names h => hformals ⟨names, h⟩)
    · obtain ⟨hform, hname⟩ := not_or.1 htarget
      cases operands with
      | nil => cases form <;> cases hcount
      | cons target rest =>
        exact .inl (.target hform fun name h => hname ⟨name, rest, congrArg (· :: rest) h⟩)
  · exact .inl (.count hcount)

/-- The form refuses the operands, and evaluates none of them. -/
def Refuses (form : Form) (operands : List Sexp) (m : Misuse) : Prop :=
  ∀ eval, evaluateForm eval form operands = throw (.misuse m)

theorem refuses_count {form : Form} {operands : List Sexp} (h : operands.length ≠ form.arity) :
    form.Refuses operands (.operandCount form form.arity operands.length) := by
  intro eval
  cases form with
  | conditional => exact evaluateConditional_of_length h
  | define => exact evaluateAssignment_of_length h
  | set => exact evaluateAssignment_of_length h
  | function => exact evaluateDeclaration_of_length h

/-- A malformed form is refused for its count of operands or else for the first of them that it
cannot have. -/
theorem Malformed.refused {form : Form} {operands : List Sexp} (h : form.Malformed operands) :
    ∃ m, form.Refuses operands m := by
  by_cases hcount : operands.length = form.arity
  · cases h with
    | count hne => exact absurd hcount hne
    | @target _ target rest hform htarget =>
      refine ⟨.notASymbol form target, fun eval => ?_⟩
      match form, rest, hcount with
      | .define, [operand], _ | .set, [operand], _ =>
        rw [evaluateForm, evaluateAssignment_eq, expectSymbol_of_ne htarget]
        rfl
      | .function, [formals, body], _ =>
        rw [evaluateForm, evaluateDeclaration_eq, expectSymbol_of_ne htarget]
        rfl
    | @parameters target formals body hformals =>
      cases hname : expectSymbol .function target with
      | error m =>
        refine ⟨m, fun eval => ?_⟩
        rw [evaluateForm, evaluateDeclaration_eq, hname]
        rfl
      | ok name =>
        cases hnames : expectParameters formals with
        | ok names => exact absurd (eq_of_expectParameters hnames) (hformals names)
        | error m =>
          refine ⟨m, fun eval => ?_⟩
          rw [evaluateForm, evaluateDeclaration_eq, hname, hnames]
          rfl
  · exact ⟨_, refuses_count hcount⟩

end Form

/-! ## The ways to fail -/

/-- How the evaluation of an expression from a state `s` fails, `eval` being the evaluation of the
trees inside: the fault, and the state that is left. -/
inductive Failure (config : Config) (eval : Sexp → Run Value) (s : State) :
    List Sexp → Fault → State → Prop
  /-- A form is refused, with nothing done but that it was entered. -/
  | refused {head : Sexp} {form : Form} {operands : List Sexp} {m : Misuse}
      (hform : head.form? = some form) (h : form.Refuses operands m) :
      Failure config eval s (head :: operands) (.misuse m) (s.reported (.entered form))
  | test {head test yes no : Sexp} {e : Fault} {t : State}
      (hform : head.form? = some .conditional)
      (h : eval test (s.reported (.entered .conditional)) = .error e t) :
      Failure config eval s [head, test, yes, no] e t
  /-- The branch that the test has chosen fails. -/
  | branch {head test yes no chosen : Sexp} {v : Value} {e : Fault} {t u : State}
      (hform : head.form? = some .conditional)
      (htest : eval test (s.reported (.entered .conditional)) = .ok v t)
      (hchosen : v = .boolean true ∧ chosen = yes ∨ v ≠ .boolean true ∧ chosen = no)
      (h : eval chosen t = .error e u) : Failure config eval s [head, test, yes, no] e u
  /-- The value to be bound fails, and its name is not bound. -/
  | operand {head operand : Sexp} {form : Form} {name : String} {e : Fault} {t : State}
      (hform : head.form? = some form) (hassign : form = .define ∨ form = .set)
      (h : eval operand (s.reported (.entered form)) = .error e t) :
      Failure config eval s [head, .atom (.symbol name), operand] e t
  | head {head : Sexp} {operands : List Sexp} {e : Fault} {t : State}
      (hform : head.form? = none) (h : eval head s = .error e t) :
      Failure config eval s (head :: operands) e t
  /-- The head comes to something that cannot be called, and no operand is evaluated. -/
  | notCallable {head : Sexp} {operands : List Sexp} {v : Value} {t : State}
      (hform : head.form? = none) (hhead : eval head s = .ok v t) (h : ∀ f, v ≠ .function f) :
      Failure config eval s (head :: operands) (.notCallable v) t
  /-- One argument fails after all before it, and neither those after it are evaluated nor is the
  procedure called. -/
  | argument {head arg : Sexp} {before after : List Sexp} {f : Procedure} {values : List Value}
      {e : Fault} {t u w : State} (hform : head.form? = none)
      (hhead : eval head s = .ok (.function f) t) (hbefore : before.mapM eval t = .ok values u)
      (h : eval arg u = .error e w) :
      Failure config eval s (head :: (before ++ arg :: after)) e w
  /-- The call fails, of a procedure with all its arguments. -/
  | called {head : Sexp} {operands : List Sexp} {f : Procedure} {values : List Value}
      {e : Fault} {t u w : State} (hform : head.form? = none)
      (hhead : eval head s = .ok (.function f) t) (hargs : operands.mapM eval t = .ok values u)
      (h : call config eval f values u = .error e w) :
      Failure config eval s (head :: operands) e w

section

variable {config : Config} {eval : Sexp → Run Value} {head : Sexp} {operands : List Sexp}
  {s t : State} {e : Fault}

theorem evaluateForm_assignment {form : Form} (h : form = .define ∨ form = .set) (name : String)
    (operand : Sexp) (u : State) :
    evaluateForm eval form [.atom (.symbol name), operand] u =
      (eval operand >>= fun v => do assignAs form name v; return .none) u := by
  rcases h with rfl | rfl <;> rw [evaluateForm, evaluateAssignment_eq] <;> rfl

theorem evaluateForm_declaration (name : String) (names : List String) (body : Sexp) (u : State) :
    evaluateForm eval .function
        [.atom (.symbol name), .expression (names.map fun n => .atom (.symbol n)), body] u =
      (do declareAs name names (body.abstracted names); return .none : Run Value) u := by
  rw [evaluateForm, evaluateDeclaration_eq, expectParameters_formals]
  rfl

/-- A form that fails is refused, or a tree that it evaluates has failed. -/
theorem Failure.of_form {form : Form} (hform : head.form? = some form)
    (h : evaluateForm eval form operands (s.reported (.entered form)) = .error e t) :
    Failure config eval s (head :: operands) e t := by
  obtain hmalformed | hwell := form.malformed_or_wellFormed operands
  · obtain ⟨m, hm⟩ := hmalformed.refused
    rw [hm eval] at h
    cases h
    exact .refused hform hm
  · cases hwell with
    | conditional test yes no =>
      rw [evaluateForm, evaluateConditional, Run.andThen_apply] at h
      cases htest : eval test (s.reported (.entered .conditional)) with
      | error e' u =>
        rw [htest] at h
        cases h
        exact .test hform htest
      | ok v u =>
        rw [htest] at h
        dsimp only at h
        split at h
        · exact .branch hform htest (.inl ⟨rfl, rfl⟩) h
        case h_2 hv => exact .branch hform htest (.inr ⟨hv, rfl⟩) h
    | assignment hassign name operand =>
      rw [evaluateForm_assignment hassign, Run.andThen_apply] at h
      cases hoperand : eval operand (s.reported (.entered form)) with
      | error e' u =>
        rw [hoperand] at h
        cases h
        exact .operand hform hassign hoperand
      | ok v u =>
        rw [hoperand] at h
        dsimp only at h
        rw [Run.andThen_apply, assignAs_apply] at h
        cases h
    | declaration name names body =>
      rw [evaluateForm_declaration, Run.andThen_apply, declareAs_apply] at h
      cases h

theorem Failure.of_application (hform : head.form? = none)
    (h : evaluateExpression config eval (head :: operands) s = .error e t) :
    Failure config eval s (head :: operands) e t := by
  rw [evaluateExpression_application hform] at h
  split at h
  case h_1 f u hhead =>
    rw [Run.andThen_apply] at h
    cases hargs : operands.mapM eval u with
    | ok values w =>
      rw [hargs] at h
      exact .called hform hhead hargs h
    | error e' w =>
      rw [hargs] at h
      cases h
      obtain ⟨before, arg, after, values, x, rfl, hbefore, harg⟩ := Run.mapM_eq_error_iff.1 hargs
      exact .argument hform hhead hbefore harg
  case h_2 v u hv hhead =>
    cases h
    exact .notCallable hform hhead fun f hf => hv f hf
  case h_3 e' u hhead =>
    cases h
    exact .head hform hhead

/-- **The ways to fail are these.** -/
theorem evaluateExpression_eq_error_iff {items : List Sexp} :
    evaluateExpression config eval items s = .error e t ↔ Failure config eval s items e t := by
  constructor
  · intro h
    cases items with
    | nil => cases h
    | cons head operands =>
      cases hform : head.form? with
      | some form =>
        rw [evaluateExpression_form hform] at h
        exact .of_form hform h
      | none => exact .of_application hform h
  · intro h
    cases h with
    | refused hform h => rw [evaluateExpression_form hform, h eval]; rfl
    | test hform h =>
      rw [evaluateExpression_form hform, evaluateForm, evaluateConditional, Run.andThen_apply, h]
    | branch hform htest hchosen h =>
      rw [evaluateExpression_form hform, evaluateForm, evaluateConditional, Run.andThen_apply,
        htest]
      dsimp only
      obtain ⟨rfl, rfl⟩ | ⟨hv, rfl⟩ := hchosen
      · exact h
      · split
        · exact absurd rfl hv
        · exact h
    | operand hform hassign h =>
      rw [evaluateExpression_form hform, evaluateForm_assignment hassign, Run.andThen_apply, h]
    | head hform h => rw [evaluateExpression_application hform, h]
    | notCallable hform hhead h =>
      rw [evaluateExpression_application hform, hhead]
      split
      case h_1 f u hv => cases hv; exact absurd rfl (h f)
      case h_2 v u _ hv => cases hv; rfl
      case h_3 hv => cases hv
    | argument hform hhead hbefore h =>
      rw [evaluateExpression_application hform, hhead]
      dsimp only
      rw [Run.andThen_apply, Run.mapM_eq_error_iff.2 ⟨_, _, _, _, _, rfl, hbefore, h⟩]
    | called hform hhead hargs h =>
      rw [evaluateExpression_application hform, hhead]
      dsimp only
      rw [Run.andThen_apply, hargs]
      exact h

end

/-- A well-formed form is not refused: it succeeds where all that it evaluates does. -/
theorem Form.WellFormed.evaluateForm_ok {form : Form} {operands : List Sexp}
    (h : form.WellFormed operands) (s : State) :
    ∃ v t, evaluateForm (fun _ => pure .none) form operands s = .ok v t := by
  cases h with
  | conditional test yes no => exact ⟨_, _, rfl⟩
  | assignment hassign name operand =>
    rw [evaluateForm_assignment hassign]
    exact ⟨_, _, rfl⟩
  | declaration name names body =>
    rw [evaluateForm_declaration]
    exact ⟨_, _, rfl⟩

/-- **A failing expression leaves nothing half done.** Within the limit an expression fails in one
of the ways that `Failure` lists, with the fault and in the state that it gives. A form is refused
without evaluating an operand exactly if it is malformed, and nothing has changed then; and a
declaration never evaluates an operand at all. -/
theorem evaluate_failure (config : Config) (items : List Sexp) (s : State) :
    let result := fun eval => evaluateExpression config eval items s
    (∀ budget, evaluate config (budget + 1) (.expression items) s =
      result (evaluate config budget)) ∧
    (∀ eval e t, result eval = .error e t ↔ Failure config eval s items e t) ∧
    ∀ head operands form, items = head :: operands → head.form? = some form →
      (form.Malformed operands ↔
        ∃ m, ∀ eval, result eval = .error (.misuse m) (s.reported (.entered form))) ∧
      (form = .function → ∃ r, ∀ eval, result eval = r) := by
  intro result
  refine ⟨fun budget => rfl, fun eval e t => evaluateExpression_eq_error_iff, ?_⟩
  rintro head operands form rfl hform
  have hresult : ∀ eval, result eval = evaluateForm eval form operands
      (s.reported (.entered form)) := fun eval => evaluateExpression_form hform s
  refine ⟨⟨fun h => ?_, fun ⟨m, hm⟩ => ?_⟩, ?_⟩
  · obtain ⟨m, hm⟩ := h.refused
    exact ⟨m, fun eval => by rw [hresult, hm eval]; rfl⟩
  · obtain h | hwell := form.malformed_or_wellFormed operands
    · exact h
    · obtain ⟨v, t, hok⟩ := hwell.evaluateForm_ok (s.reported (.entered form))
      have hrefused := hm fun _ => pure .none
      rw [hresult, hok] at hrefused
      cases hrefused
  · rintro rfl
    exact ⟨_, fun eval => hresult eval⟩

/-- A name is missing among the arguments: the one before it has been evaluated, and the call of
`println` after it has not. Where `define` has no name the same call is not evaluated either. -/
theorem evaluate_failure_between :
    let s : State := ⟨.ofList [("println", .function (.primitive .println))], #[],
      .start .unlimited, 0⟩
    let printing := Sexp.expression [.atom (.symbol "println"), .atom (.string "a")]
    evaluate .standard 2 (.expression (.atom (.symbol "println") ::
        ([.atom (.string "b")] ++ .atom (.symbol "x") :: [printing]))) s =
      .error (.undefined "x") s ∧
    ∃ m, evaluate .standard 2 (.expression [.atom (.symbol "define"), .atom (.string "x"),
      printing]) s = .error (.misuse m) (s.reported (.entered .define)) := by
  intro s printing
  have hhead : evaluate .standard 1 (.atom (.symbol "println")) s =
      .ok (.function (.primitive .println)) s := evaluate_symbol rfl
  obtain ⟨heval, hfailure, -⟩ := evaluate_failure .standard (.atom (.symbol "println") ::
    ([.atom (.string "b")] ++ .atom (.symbol "x") :: [printing])) s
  refine ⟨(heval 1).trans ((hfailure _ _ _).2 (.argument rfl hhead rfl rfl)), ?_⟩
  obtain ⟨heval, -, hforms⟩ := evaluate_failure .standard
    [.atom (.symbol "define"), .atom (.string "x"), printing] s
  obtain ⟨m, hm⟩ := (hforms _ _ _ rfl rfl).1.1 (.target (by decide) fun name h => by cases h)
  exact ⟨m, (heval 1).trans (hm _)⟩

end MiniLisp

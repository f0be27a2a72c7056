import MiniLisp.Proofs.Run.Lockstep
import MiniLisp.Proofs.Tree.Substitution
import MiniLisp.Proofs.Value.Procedures

/-!
# Calls of declared procedures

A call of a declared procedure evaluates its body with the arguments put for the parameters, all at
once (`call_substituted`). An argument that has been put into the body stands for itself there, be
it a list or a procedure, as long as it is no symbol.

The procedure itself is not touched by that. Procedures are told apart by when they were declared
and not by what they hold, so one might change without ceasing to be the same one. None does:
whatever is evaluated, every copy of a procedure that is found in a value keeps its template
(`State.Keeps`).
-/

namespace MiniLisp

/-! ## Copies of a procedure -/

/-- Every procedure in a value that passes for `f` is `f`, with its template. -/
def Value.Keeps (f : Procedure) (v : Value) : Prop :=
  ∀ g ∈ v.procedures, g.equal f → g = f

/-- Every procedure in a tree that passes for `f` is `f`, with its template. -/
def Sexp.Keeps (f : Procedure) (t : Sexp) : Prop :=
  ∀ g ∈ t.procedures, g.equal f → g = f

/-- Names are bound to values that keep `f`, and no procedure that is yet to be declared will pass
for `f`. -/
structure State.Keeps (f : Procedure) (s : State) : Prop where
  environment : ∀ name v, s.environment.get? name = some v → v.Keeps f
  later : ∀ {id name parameters template}, s.declarations ≤ id →
    (Procedure.declared id name parameters template).equal f = false

namespace State.Keeps

variable {f : Procedure} {s : State}

/-- A procedure that is declared now does not pass for `f`, nor does it bring in one that would. -/
theorem declared (h : s.Keeps f) {body : Sexp} (hbody : body.Keeps f) (name : String)
    (parameters : List String) :
    Value.Keeps f (.function
      (.declared s.declarations name parameters (body.abstracted parameters))) := by
  intro g hg hequal
  rcases List.mem_cons.1 hg with rfl | hg
  · rw [h.later (Nat.le_refl _)] at hequal
    cases hequal
  · exact hbody g (Sexp.mem_procedures_of_abstracted hg) hequal

end State.Keeps

namespace Simulation

/-- Runs in the same state, which keeps `f`. -/
def keeping (f : Procedure) : Simulation :=
  same (fun s t => s = t ∧ s.Keeps f) (Value.Keeps f) (Sexp.Keeps f) (fun e e' => e = e')
    fun _ _ _ => False

variable {f : Procedure}

theorem keeping_steps :
    StepLaws (fun s t => s = t ∧ s.Keeps f) (Value.Keeps f) (Sexp.Keeps f) where
  atom h _ := h
  found := by
    rintro s _ n ⟨rfl, hs⟩ -
    exact ⟨rfl, hs.environment n⟩
  reported := by
    rintro s _ e ⟨rfl, hs⟩ -
    exact ⟨rfl, hs.environment, hs.later⟩
  bound := by
    rintro s _ n v ⟨rfl, hs⟩ - hv
    exact ⟨rfl, Environment.forall_define hs.environment n hv, hs.later⟩
  declarations := by
    rintro s _ ⟨rfl, -⟩
    rfl
  procedure := by
    rintro s _ name body ⟨rfl, hs⟩ - hbody parameters
    exact hs.declared hbody name parameters
  counted := by
    rintro s _ ⟨rfl, hs⟩
    exact ⟨rfl, hs.environment, fun hid => hs.later (Nat.le_of_succ_le hid)⟩

theorem printLine_keeping (config : Config) (line : String) :
    (keeping f).Runs (fun _ _ => True) (Run.printLine config line)
      (Run.printLine config line) := by
  refine .printLine (fun h => ?_) (fun h => ?_) (fun h => ?_) fun _ => rfl
  · rw [h.1]
  · exact ⟨h.1 ▸ rfl, h.2.environment, h.2.later⟩
  · exact ⟨h.1 ▸ rfl, h.2.environment, h.2.later⟩

/-- No step of a run replaces the template of `f`. -/
theorem keeping_laws (f : Procedure) (config : Config) :
    SameLaws (fun s t => s = t ∧ s.Keeps f) (Value.Keeps f) (Sexp.Keeps f) (fun e e' => e = e')
      (fun _ _ _ => False) config config where
  cut_continues h _ := h
  hereditary := Value.hereditary_procedures _
  misuse _ := rfl
  notCallable _ := rfl
  unfilled _ := rfl
  items h t ht g hg := h g (Sexp.mem_procedures_expression.2 ⟨t, ht, hg⟩)
  filled hf hargs _ g hg := by
    rcases Sexp.mem_procedures_of_filled hg with hg | ⟨v, hv, hg⟩
    · exact hf g (List.mem_cons_of_mem _ hg)
    · exact hargs v hv g hg
  atom h := keeping_steps.evaluateAtom (fun _ => rfl) h
  entered form := keeping_steps.report (.entered form)
  called hf hargs := keeping_steps.report (.called hf hargs)
  printLine _ _ := printLine_keeping config _
  assign hname hv := keeping_steps.assign hname hv
  declare _ hname hbody := keeping_steps.declare hname hbody

end Simulation

/-- **Evaluation keeps procedures as they are**, wherever they are called, copied or bound. -/
theorem Session.evaluateTree_keeps {f : Procedure} {s : Session} (hs : s.state.Keeps f)
    {tree : Sexp} (htree : tree.Keeps f) :
    (s.evaluateTree tree).2.state.Keeps f ∧
      ∀ v, (s.evaluateTree tree).1 = .ok v → v.Keeps f := by
  have key := (Simulation.keeping_laws f s.config).lawful.evaluate 0
    (fun _ _ _ => .throw rfl) s.config.maxDepth ⟨htree, rfl⟩ s.state s.state ⟨rfl, hs⟩
  unfold evaluateTree
  rw [Nat.add_zero] at key
  generalize hrun : evaluate s.config s.config.maxDepth tree s.state = r at key
  cases key with
  | returned hv ht =>
    rw [run_of_ok hrun]
    refine ⟨ht.2, fun w hw => ?_⟩
    obtain rfl := Except.ok.inj hw
    exact hv.1
  | failed _ ht =>
    rw [run_of_error hrun]
    exact ⟨ht.2, fun w hw => by cases hw⟩
  | cut h => exact h.elim

/-! ## Calls -/

/-- **A call substitutes its arguments.** A procedure that was declared with a body and parameters,
when it is called with as many arguments, evaluates the body with the arguments put for the
parameters; an argument that is no symbol is the value of the atom that is put for its parameter;
and no evaluation replaces the template. -/
theorem call_substituted {body : Sexp} (hbody : body.placeholders = []) {parameters : List String}
    {args : List Value} (hlength : args.length = parameters.length) (id : Nat) (name : String)
    (config : Config) :
    let arguments := parameters.zip args
    let template := body.abstracted parameters
    let f := Procedure.declared id name parameters template
    template.filled args = body.substituted arguments ∧
      (∀ eval, call config eval f args = do
        Run.report (.called name args)
        eval (body.substituted arguments)) ∧
      (∀ parameter v, arguments.lookup parameter = some v → (∀ symbol, v ≠ .symbol symbol) →
        ∀ budget s, evaluate config (budget + 1)
          ((Sexp.atom (.symbol parameter)).substituted arguments) s = .ok v s) ∧
      ∀ (s : Session) (tree : Sexp), s.state.Keeps f → tree.Keeps f →
        (s.evaluateTree tree).2.state.Keeps f ∧
          ∀ v, (s.evaluateTree tree).1 = .ok v → v.Keeps f := by
  intro arguments template f
  have hfilled : template.filled args = body.substituted arguments :=
    Sexp.filled_abstracted hlength body hbody
  refine ⟨hfilled, fun eval => ?_, fun parameter v hlookup hv budget s => ?_,
    fun s tree hs htree => Session.evaluateTree_keeps hs htree⟩
  · rw [call_declared, if_pos hlength, hfilled]
  · rw [Sexp.substituted, hlookup]
    dsimp only
    rw [evaluate]
    cases v with
    | symbol symbol => exact absurd rfl (hv symbol)
    | _ => rfl

/-- A procedure with a parameter that it has twice, and called with a symbol that is the name of
another parameter. -/
theorem call_substituted_swap :
    let body := Sexp.expression [.atom (.symbol "set"), .atom (.symbol "y"), .atom (.symbol "x")]
    let parameters := ["x", "y", "x"]
    let args := [Value.list [.none], .symbol "x", .boolean true]
    let f := Procedure.declared 0 "f" parameters (body.abstracted parameters)
    let s : Session := ⟨.standard, ⟨Environment.fresh.define "f" (.function f), #[],
      .start .unlimited, 1⟩⟩
    let tree := Sexp.expression [.atom (.symbol "map"), .atom (.symbol "f"), .expression []]
    body.placeholders = [] ∧ args.length = parameters.length ∧
      (body.abstracted parameters).filled args =
        .expression [.atom (.symbol "set"), .atom (.symbol "x"), .atom (.list [.none])] ∧
      (∀ budget s, evaluate .standard (budget + 1) (.atom (.list [.none])) s =
        .ok (.list [.none]) s) ∧
      s.state.Keeps f ∧ tree.Keeps f ∧ (s.evaluateTree tree).2.state.Keeps f := by
  intro body parameters args f s tree
  have hbody : body.placeholders = [] := rfl
  have hlength : args.length = parameters.length := rfl
  obtain ⟨hfilled, -, hatom, hkeeps⟩ := call_substituted hbody hlength 0 "f" .standard
  have hf : Value.Keeps f (.function f) := by
    intro g hg _
    exact List.mem_singleton.1 hg
  have hs : s.state.Keeps f := by
    refine ⟨Environment.forall_define (Environment.forall_fresh ?_ ?_) "f" hf, fun hid => ?_⟩
    · intro x g hg
      cases hg
    · intro p g hg hequal
      obtain rfl := List.mem_singleton.1 hg
      cases hequal
    · exact beq_eq_false_iff_ne.2 (Nat.ne_of_gt hid)
  have htree : tree.Keeps f := fun g hg => by cases hg
  exact ⟨hbody, hlength, hfilled, hatom "x" _ rfl fun n h => by (cases h), hs, htree,
    (hkeeps s tree hs htree).1⟩

end MiniLisp

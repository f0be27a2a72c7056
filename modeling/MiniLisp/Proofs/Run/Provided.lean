import MiniLisp.Proofs.Run.Lockstep
import MiniLisp.Proofs.Tree.Height
import MiniLisp.Proofs.Value.Procedures

/-!
# Programs without declarations

Evaluations nest as deep as the tree that is evaluated, unless a call begins an evaluation of its
own, and only a call of a procedure does that which a program has declared. So a program that
declares none, and has none to call, is within every limit that is not below the height of its tree
(`Session.ne_overflow_of_provided`), whatever primitives it hands to `map` and `apply`.

The run keeps two things. No procedure comes into the state but primitives (`Value.Provided`),
because only the form `function` makes any other; and the trees that are evaluated are parts of the
program, each of them no taller than the budget that is left for it (`Simulation.provided`).
-/

namespace MiniLisp

/-- A value in which there are no procedures, in lists at any depth, but primitives. -/
def Value.Provided (v : Value) : Prop :=
  ∀ f ∈ v.procedures, ∃ p, f = .primitive p

/-- An environment without procedures that a program has declared. -/
def Environment.Provided (e : Environment) : Prop :=
  ∀ name v, e.get? name = some v → v.Provided

/-- A tree that neither declares a procedure nor holds one that has been declared. -/
structure Sexp.Provided (t : Sexp) : Prop where
  form : .symbol "function" ∉ t.atoms
  procedures : ∀ f ∈ t.procedures, ∃ p, f = .primitive p

theorem Value.hereditary_provided : Value.Hereditary Value.Provided :=
  Value.hereditary_procedures _

theorem Value.not_provided_declared {id : Nat} {name : String} {parameters : List String}
    {template : Sexp} :
    ¬ Value.Provided (.function (.declared id name parameters template)) := by
  intro h
  obtain ⟨p, hp⟩ := h _ List.mem_cons_self
  cases hp

namespace Sexp.Provided

theorem items {items : List Sexp} (h : Provided (.expression items)) :
    ∀ t ∈ items, t.Provided := by
  intro t ht
  refine ⟨fun hmem => ?_, fun f hf => ?_⟩
  · exact h.form (Sexp.mem_atomsAll.2 ⟨t, ht, hmem⟩)
  · exact h.procedures f (Sexp.mem_procedures_expression.2 ⟨t, ht, hf⟩)

/-- A program text has only to do without the form `function`. -/
theorem of_parse {source : String} {tree : Sexp} (h : parse source = .ok tree)
    (hform : .symbol "function" ∉ tree.atoms) : tree.Provided := by
  refine ⟨hform, fun f hf => ?_⟩
  rw [procedures_of_parse h] at hf
  cases hf

end Sexp.Provided

/-! ## Runs -/

namespace Simulation

/-- Runs of the same tree in the same state, without declarations and with as many levels. They stop
for the same fault, if for any, and never for an overflow. -/
def provided (levels : Nat) : Simulation :=
  same (fun s t => s = t ∧ s.environment.Provided) Value.Provided
    (fun t => t.Provided ∧ t.height ≤ levels) (fun e f => e = f ∧ ∀ limit, e ≠ .overflow limit)
    fun _ _ _ => False

variable {levels : Nat}

theorem report_provided (e : Event) :
    (provided levels).Runs (fun _ _ => True) (Run.report e) (Run.report e) :=
  fun _ _ h => .returned True.intro ⟨by rw [h.1], h.2⟩

theorem evaluateAtom_provided {v : Value} (h : (Sexp.atom v).Provided) :
    (provided levels).Runs (fun v w => v.Provided ∧ v = w) (evaluateAtom v) (evaluateAtom v) := by
  refine .evaluateAtom (fun _ => h.procedures) (fun _ hst => ?_) fun _ _ _ => ?_
  · exact ⟨by rw [hst.1], hst.2 _⟩
  · exact .inl ⟨rfl, fun _ h => by cases h⟩

theorem printLine_provided (config : Config) (line : String) :
    (provided levels).Runs (fun _ _ => True) (Run.printLine config line)
      (Run.printLine config line) := by
  refine .printLine (fun h => ?_) (fun h => ?_) (fun h => ?_) fun _ => ⟨rfl, fun _ h => by cases h⟩
  · rw [h.1]
  · exact ⟨by rw [h.1], h.2⟩
  · exact ⟨by rw [h.1], h.2⟩

theorem assign_provided (form : Form) (name : String) {v : Value} (hv : v.Provided) :
    (provided levels).Runs (fun _ _ => True) (assignAs form name v) (assignAs form name v) := by
  rintro s _ ⟨rfl, hs⟩
  rw [assignAs_apply]
  exact .returned True.intro ⟨rfl, Environment.forall_define hs name hv⟩

/-- **Without a declaration no step of a run overflows** by itself or makes a procedure. -/
theorem provided_laws (config : Config) (levels : Nat) :
    SameLaws (fun s t => s = t ∧ s.environment.Provided) Value.Provided
      (fun t => t.Provided ∧ t.height ≤ levels) (fun e f => e = f ∧ ∀ limit, e ≠ .overflow limit)
      (fun _ _ _ => False) config config where
  cut_continues h _ := h
  hereditary := Value.hereditary_provided
  misuse _ := ⟨rfl, fun _ h => by cases h⟩
  notCallable _ := ⟨rfl, fun _ h => by cases h⟩
  unfilled _ := ⟨rfl, fun _ h => by cases h⟩
  items h t ht := ⟨h.1.items t ht, Sexp.height_items (Nat.le_succ_of_le h.2) t ht⟩
  filled h _ _ := absurd h Value.not_provided_declared
  atom h := evaluateAtom_provided h.1
  entered form := report_provided (.entered form)
  called _ _ := report_provided _
  printLine _ _ := printLine_provided config _
  assign _ hv := assign_provided _ _ hv
  declare hform _ _ := absurd (List.mem_singleton_self _) hform.1.form

/-- **A tree is within a budget of its height**, by induction on the budget. -/
theorem evaluate_provided (config : Config) (budget : Nat) {t : Sexp} (h : t.Provided)
    (hheight : t.height ≤ budget) :
    (provided budget).Runs (fun v w => v.Provided ∧ v = w) (evaluate config budget t)
      (evaluate config budget t) := by
  induction budget generalizing t with
  | zero => exact absurd t.height_pos (Nat.not_lt_of_ge hheight)
  | succ budget ih =>
    cases t with
    | atom v => exact evaluateAtom_provided h
    | expression items =>
      have hstep := (provided_laws config budget).inStep fun t ht =>
        ⟨h.items t ht, Sexp.height_items hheight t ht⟩
      have hitems : (provided budget).Runs (fun v w => v.Provided ∧ v = w)
          (evaluateExpression config (evaluate config budget) items)
          (evaluateExpression config (evaluate config budget) items) := by
        refine (provided_laws config budget).lawful.evaluateExpression (fun t u htu => ?_)
          (evaluate_grows config budget) hstep
        obtain ⟨⟨ht, hle⟩, rfl⟩ := htu
        exact ih ht hle
      -- the items are one level less tall than the expression, but that is all that differs
      exact hitems.withTree _
    | placeholder index => exact .throw ⟨rfl, fun _ h => by cases h⟩

theorem runProgram_provided (config : Config) {tree : Sexp} (h : tree.Provided)
    (hheight : tree.height ≤ config.maxDepth) :
    (provided config.maxDepth).Runs (fun v w => v.Provided ∧ v = w) (runProgram config tree)
      (runProgram config tree) :=
  (report_provided (.parsed tree)).andThen (fun h _ => h)
    (fun _ _ _ => evaluate_provided config config.maxDepth h hheight)
    fun _ => evaluate_grows _ _ tree

end Simulation

/-! ## Sessions -/

namespace Session

/-- What is run without declarations does not overflow and leaves none. -/
theorem run_provided {s : Session} (hs : s.environment.Provided) {levels : Nat} {x : Run Value}
    (hx : (Simulation.provided levels).Runs (fun v w => v.Provided ∧ v = w) x x) :
    (∀ limit, (s.run x).1 ≠ .error (.overflow limit)) ∧ (s.run x).2.environment.Provided := by
  obtain ⟨-, -, hfault, -, hafter⟩ := hx.answers id id (s := s) (t := s) ⟨rfl, hs⟩
  exact ⟨fun limit h => hfault _ h limit rfl, hafter⟩

theorem start_provided (config : Config) (sink : Sink) :
    (start config sink).environment.Provided := by
  refine Environment.forall_fresh (fun x f hf => ?_) fun p f hf => ?_
  · cases hf
  · exact ⟨p, List.mem_singleton.1 hf⟩

/-- **Only declared procedures overflow.** In a session that has none, a tree which declares none and
holds none is evaluated within every limit that is not below its height, and none has been declared
afterwards. The tree of a text is at most 1025 levels high, so for a program that does without the
form `function` that limit is enough, and the standard one is more than enough. -/
theorem ne_overflow_of_provided {s : Session} (hs : s.environment.Provided) :
    (∀ tree : Sexp, tree.Provided → tree.height ≤ s.config.maxDepth →
      (∀ limit, (s.evaluateTree tree).1 ≠ .error (.overflow limit)) ∧
        (s.evaluateTree tree).2.environment.Provided) ∧
    (∀ source tree, parse source = .ok tree → tree.height ≤ 1025 ∧
      (.symbol "function" ∉ tree.atoms → 1025 ≤ s.config.maxDepth →
        (∀ limit, (s.evaluateText source).1 ≠ .error (.overflow limit)) ∧
          (s.evaluateText source).2.environment.Provided)) ∧
    1025 ≤ Config.standard.maxDepth := by
  refine ⟨fun tree htree hheight => ?_, fun source tree hparse => ?_, by decide⟩
  · exact run_provided hs (Simulation.evaluate_provided s.config _ htree hheight)
  · have hheight : tree.height ≤ 1025 := height_of_parse hparse
    refine ⟨hheight, fun hform hlimit => ?_⟩
    have hruns := Simulation.runProgram_provided s.config (.of_parse hparse hform)
      (Nat.le_trans hheight hlimit)
    rw [evaluateText_of_parse hparse]
    exact run_provided hs hruns

/-- Here the limit is the height, and a primitive is handed to another one that calls it. -/
theorem ne_overflow_of_provided_apply :
    let s := Session.start ⟨4, true⟩ .unlimited
    let tree := Sexp.expression [.atom (.symbol "map"), .atom (.symbol "apply"),
      .expression [.atom (.symbol "list"), .atom (.symbol "list")],
      .expression [.atom (.symbol "list"), .expression [.atom (.symbol "list"), .atom (.string "a")]]]
    parse "(map apply (list list) (list (list 'a')))" = .ok tree ∧ tree.height = 4 ∧
      s.environment.Provided ∧ tree.Provided ∧
      ∀ limit, (s.evaluateTree tree).1 ≠ .error (.overflow limit) := by
  intro s tree
  have hparse : parse "(map apply (list list) (list (list 'a')))" = .ok tree := by
    dsimp only [tree]
    rfl
  have htree : tree.Provided := .of_parse hparse (by simp [tree, Sexp.atoms, Sexp.atomsAll])
  have hs := start_provided ⟨4, true⟩ .unlimited
  have hrun := (ne_overflow_of_provided hs).1 tree htree (by decide)
  exact ⟨hparse, rfl, hs, htree, hrun.1⟩

end Session

end MiniLisp

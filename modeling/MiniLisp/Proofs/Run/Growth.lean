import MiniLisp.Proofs.Run.Basic

/-!
# Runs only add

No step of an evaluation takes back an event or a written byte: the journal and the output of the
state in which a run ends, by a value or by a fault, continue those of the state it starts in.
`evaluate_grows` follows the evaluator, and all of it rests on `Run.Grows.andThen`.
-/

namespace MiniLisp

/-- The journal and the written bytes of `t` continue those of `s`. -/
structure State.Continues (t s : State) : Prop where
  journal : ∃ more, t.journal = s.journal ++ more
  written : ∃ more, t.output.written = s.output.written ++ more

namespace State.Continues

theorem refl (s : State) : s.Continues s :=
  ⟨⟨#[], by simp⟩, ⟨.empty, by simp⟩⟩

theorem trans {s t u : State} (hu : u.Continues t) (ht : t.Continues s) : u.Continues s := by
  obtain ⟨⟨j, hj⟩, ⟨w, hw⟩⟩ := hu
  obtain ⟨⟨j', hj'⟩, ⟨w', hw'⟩⟩ := ht
  refine ⟨⟨j' ++ j, ?_⟩, ⟨w' ++ w, ?_⟩⟩
  · rw [hj, hj', Array.append_assoc]
  · rw [hw, hw', ByteArray.append_assoc]

theorem reported (s : State) (e : Event) : (s.reported e).Continues s :=
  ⟨⟨#[e], by simp [State.reported]⟩, ⟨.empty, by simp [State.reported]⟩⟩

end State.Continues

namespace Run

/-- A computation that takes back neither an event nor a written byte. -/
def Grows (x : Run α) : Prop :=
  ∀ s, (endState (x s)).Continues s

/-! ## Steps -/

namespace Grows

theorem pure (a : α) : Grows (Pure.pure a : Run α) :=
  fun s => .refl s

theorem throw (e : Fault) : Grows (MonadExcept.throw e : Run α) :=
  fun s => .refl s

theorem andThen {x : Run α} {f : α → Run β} (hx : x.Grows) (hf : ∀ a, (f a).Grows) :
    (x >>= f).Grows := by
  intro s
  have h := hx s
  rw [andThen_apply]
  cases hxs : x s with
  | ok a t =>
    rw [hxs] at h
    exact (hf a t).trans h
  | error e t =>
    rw [hxs] at h
    exact h

theorem mapM {f : α → Run β} {l : List α} (hf : ∀ a ∈ l, (f a).Grows) : (l.mapM f).Grows := by
  induction l with
  | nil => exact pure []
  | cons a l ih =>
    rw [List.mapM_cons]
    refine (hf a List.mem_cons_self).andThen fun b => ?_
    exact (ih fun c hc => hf c (List.mem_cons_of_mem a hc)).andThen fun _ => pure _

theorem report (e : Event) : (Run.report e).Grows :=
  fun s => .reported s e

theorem ofExcept (r : Except Misuse α) : (Run.ofExcept r).Grows := by
  cases r with
  | ok a => exact pure a
  | error m => exact throw _

theorem lookup (name : String) : (Run.lookup name).Grows := by
  intro s
  rw [lookup_apply]
  cases s.environment.get? name with
  | some v => exact .refl s
  | none => exact .refl s

theorem printLine (config : Config) (line : String) : (Run.printLine config line).Grows := by
  intro s
  have hj : ∃ more, s.journal.push (.printed line) = s.journal ++ more :=
    ⟨#[.printed line], by simp⟩
  rw [printLine_apply]
  cases config.echo with
  | false => exact .reported s _
  | true =>
    rw [if_pos rfl]
    cases s.output.fault? line with
    | none => exact ⟨hj, ⟨_, rfl⟩⟩
    | some fault => exact ⟨hj, ⟨_, rfl⟩⟩

end Grows

end Run

/-! ## The evaluator -/

theorem assignAs_grows (form : Form) (name : String) (value : Value) :
    (assignAs form name value).Grows := by
  intro s
  have h := (State.Continues.reported _ (.bound name value)).trans
    (State.Continues.reported s (.assigned form name))
  rw [assignAs_apply]
  exact ⟨h.journal, h.written⟩

theorem declareAs_grows (name : String) (parameters : List String) (template : Sexp) :
    (declareAs name parameters template).Grows := by
  intro s
  rw [declareAs_apply]
  have h := (State.Continues.reported _
    (.bound name (.function (.declared s.declarations name parameters template)))).trans
      (State.Continues.reported s (.declared name parameters template))
  exact ⟨h.journal, h.written⟩

theorem printArguments_grows (config : Config) (args : List Value) :
    (printArguments config args).Grows := by
  refine (Run.Grows.ofExcept _).andThen fun line => ?_
  exact (Run.Grows.printLine config line).andThen fun _ => .pure _

section Evaluator

variable {config : Config} {eval : Sexp → Run Value} (heval : ∀ t, (eval t).Grows)

include heval in
theorem call_grows (f : Procedure) (args : List Value) : (call config eval f args).Grows := by
  -- The calls that `map` and `apply` make have smaller arguments.
  induction hn : Value.sizes args using Nat.strongRecOn generalizing f args with
  | _ n ih =>
    subst hn
    match f with
    | .declared id name parameters template =>
      rw [call_declared]
      refine (Run.Grows.report _).andThen fun _ => ?_
      split
      · exact heval _
      · exact .throw _
    | .primitive (.operation op) =>
      rw [call_operation]
      exact (Run.Grows.report _).andThen fun _ => .ofExcept _
    | .primitive .println =>
      rw [call_println]
      exact (Run.Grows.report _).andThen fun _ => printArguments_grows config args
    | .primitive .apply =>
      rw [call_apply]
      refine (Run.Grows.report _).andThen fun _ => ?_
      cases h : applyCall args with
      | error m => exact .throw _
      | ok p => exact ih _ (sizes_lt_of_applyCall h) p.1 p.2 rfl
    | .primitive .map =>
      rw [call_map]
      refine (Run.Grows.report _).andThen fun _ => ?_
      cases h : mapCalls args with
      | error m => exact .throw _
      | ok p =>
        refine Run.Grows.andThen ?_ fun _ => .pure _
        exact .mapM fun row hrow => ih _ (sizes_lt_of_mapCalls h hrow) p.1 row rfl

include heval in
theorem evaluateConditional_grows (operands : List Sexp) :
    (evaluateConditional eval operands).Grows := by
  unfold evaluateConditional
  split
  · refine (heval _).andThen fun v => ?_
    split
    · exact heval _
    · exact heval _
  · exact .throw _

include heval in
theorem evaluateAssignment_grows (form : Form) (operands : List Sexp) :
    (evaluateAssignment eval form operands).Grows := by
  match operands with
  | [target, operand] =>
    rw [evaluateAssignment_eq]
    refine (Run.Grows.ofExcept _).andThen fun name => ?_
    refine (heval _).andThen fun value => ?_
    exact (assignAs_grows form name value).andThen fun _ => .pure _
  | [] | [_] | _ :: _ :: _ :: _ => exact .throw _

theorem evaluateDeclaration_grows (operands : List Sexp) :
    (evaluateDeclaration operands).Grows := by
  match operands with
  | [target, formals, body] =>
    rw [evaluateDeclaration_eq]
    refine (Run.Grows.ofExcept _).andThen fun name => ?_
    refine (Run.Grows.ofExcept _).andThen fun parameters => ?_
    exact (declareAs_grows name parameters _).andThen fun _ => .pure _
  | [] | [_] | [_, _] | _ :: _ :: _ :: _ :: _ => exact .throw _

include heval in
theorem evaluateForm_grows (form : Form) (operands : List Sexp) :
    (evaluateForm eval form operands).Grows := by
  cases form with
  | conditional => exact evaluateConditional_grows heval operands
  | define => exact evaluateAssignment_grows heval .define operands
  | set => exact evaluateAssignment_grows heval .set operands
  | function => exact evaluateDeclaration_grows operands

include heval in
theorem evaluateExpression_grows (items : List Sexp) :
    (evaluateExpression config eval items).Grows := by
  unfold evaluateExpression
  split
  · exact .pure _
  · split
    · exact (Run.Grows.report _).andThen fun _ => evaluateForm_grows heval _ _
    · refine (heval _).andThen fun v => ?_
      split
      · refine Run.Grows.andThen (.mapM fun t _ => heval t) fun args => ?_
        exact call_grows heval _ args
      · exact .throw _

end Evaluator

theorem evaluateAtom_grows (v : Value) : (evaluateAtom v).Grows := by
  unfold evaluateAtom
  split
  · exact .lookup _
  · exact .pure _

/-- **An evaluation only adds** to the journal and to what has been written. -/
theorem evaluate_grows (config : Config) (budget : Nat) (tree : Sexp) :
    (evaluate config budget tree).Grows := by
  induction budget generalizing tree with
  | zero => exact .throw _
  | succ budget ih =>
    cases tree with
    | atom v => exact evaluateAtom_grows v
    | expression items => exact evaluateExpression_grows ih items
    | placeholder index => exact .throw _

end MiniLisp

import MiniLisp.Proofs.Machine.Agreement
import MiniLisp.Proofs.Primitive.Positions

/-!
# What a primitive can do

Whatever arguments a primitive is called with, and however many: an operation reports its call and
gives a value or refuses the arguments, and nothing else happens; `println` prints a line or fails
to; and `map` and `apply` fail with what a call of their procedure has failed with, once they have
found that they were given what they want (`call_primitive`).
-/

namespace MiniLisp

variable {config : Config} {eval : Sexp → Run Value} {args : List Value} {s t : State} {e : Fault}

/-! ## Operations -/

/-- A call of an operation is over with the count of open evaluations that it began with. -/
theorem Machine.reaches_operation (op : Operation) (stack : List Frame) (depth : Nat) :
    Reaches config ⟨.call (.primitive (.operation op)) args, stack, depth, s⟩
      (ended (MiniLisp.call config eval (.primitive (.operation op)) args s) stack depth) := by
  have hreach := reaches_call (reaches_evaluate config · · depth ·)
    (.primitive (.operation op)) args stack s
  rwa [call_operation_apply] at hreach ⊢

/-! ## Printing -/

theorem exists_printedLine (h : args ≠ []) : ∃ line, printedLine args = .ok line := by
  match args with
  | [] => exact absurd rfl h
  | [_] | _ :: _ :: _ => exact ⟨_, rfl⟩

theorem call_println_cases (h : args ≠ []) :
    ∃ t, t.environment = s.environment ∧
      (call config eval (.primitive .println) args s = .ok .none t ∨
        ∃ fault, call config eval (.primitive .println) args s = .error (.output fault) t) := by
  obtain ⟨line, hline⟩ := exists_printedLine h
  have hcall : call config eval (.primitive .println) args s =
      (Run.printLine config line >>= fun _ => pure .none)
        (s.reported (.called Primitive.println.name args)) := by
    rw [call_println, Run.andThen_apply, Run.report_apply, printArguments, hline]
    rfl
  obtain ⟨output, hprint | ⟨fault, hprint⟩⟩ :=
    Run.printLine_cases config line (s.reported (.called Primitive.println.name args))
  · rw [hcall, Run.andThen_apply, hprint]
    refine ⟨_, ?_, .inl rfl⟩
    rfl
  · rw [hcall, Run.andThen_apply, hprint]
    refine ⟨_, ?_, .inr ⟨fault, rfl⟩⟩
    rfl

theorem call_println_nil :
    call config eval (.primitive .println) [] s =
      .error (.misuse (.noArguments Primitive.println.name))
        (s.reported (.called Primitive.println.name [])) := by
  rw [call_println, Run.andThen_apply, Run.report_apply]
  rfl

/-! ## Calls of other procedures -/

/-- What a primitive with these arguments calls: a procedure, with these arguments in turn. -/
inductive Primitive.Calls : Primitive → List Value → Procedure → List (List Value) → Prop
  | map (f : Procedure) {lists : List (List Value)} (h : lists ≠ []) :
      Calls .map (.function f :: lists.map .list) f (rows lists)
  | apply (f : Procedure) (items : List Value) : Calls .apply [.function f, .list items] f [items]

theorem Primitive.calls_of_mapCalls {f : Procedure} {calls : List (List Value)}
    (h : mapCalls args = .ok (f, calls)) : Primitive.Calls .map args f calls := by
  obtain ⟨lists, rfl, rfl⟩ := mapCalls_eq_ok h
  cases lists with
  | nil => cases h
  | cons list lists => exact .map f (List.cons_ne_nil _ _)

/-- Without what they want `map` and `apply` call nothing. -/
theorem call_of_not_calls {p : Primitive} (hp : p = .map ∨ p = .apply)
    (h : ¬ ∃ f calls, p.Calls args f calls) :
    ∃ m, call config eval (.primitive p) args s =
      .error (.misuse m) (s.reported (.called p.name args)) := by
  rcases hp with rfl | rfl
  · cases hcalls : mapCalls args with
    | ok p => exact absurd ⟨p.1, p.2, Primitive.calls_of_mapCalls hcalls⟩ h
    | error m =>
      refine ⟨m, ?_⟩
      rw [call_map, Run.andThen_apply, Run.report_apply, hcalls]
      rfl
  · cases hcall : applyCall args with
    | ok p =>
      rw [applyCall_eq_ok.1 hcall] at h
      exact absurd ⟨p.1, [p.2], .apply p.1 p.2⟩ h
    | error m =>
      refine ⟨m, ?_⟩
      rw [call_apply, Run.andThen_apply, Run.report_apply, hcall]
      rfl

/-- Otherwise they fail if one of the calls does, and with that. -/
theorem call_of_calls {p : Primitive} {f : Procedure} {calls : List (List Value)}
    (h : p.Calls args f calls) :
    call config eval (.primitive p) args s = .error e t ↔
      ∃ before row after results u, calls = before ++ row :: after ∧
        before.mapM (call config eval f) (s.reported (.called p.name args)) = .ok results u ∧
        call config eval f row u = .error e t := by
  rw [← Run.mapM_eq_error_iff]
  cases h with
  | @map f lists hlists =>
    rw [call_map, Run.andThen_apply, Run.report_apply]
    dsimp only
    rw [mapCalls_lists f hlists]
    dsimp only
    rw [Run.andThen_apply]
    cases (rows lists).mapM (call config eval f) _ with
    | ok results u => exact ⟨fun h => (by cases h), fun h => (by cases h)⟩
    | error e' u => exact ⟨fun h => (by cases h; rfl), fun h => (by cases h; rfl)⟩
  | apply f items =>
    rw [call_apply, Run.andThen_apply, Run.report_apply, Run.mapM_cons_apply]
    dsimp only
    rw [applyCall_eq_ok.2 rfl]
    dsimp only
    cases call config eval f items _ with
    | ok v u => exact ⟨fun h => (by cases h), fun h => (by cases h)⟩
    | error e' u => exact ⟨fun h => (by cases h; rfl), fun h => (by cases h; rfl)⟩

/-! ## All primitives -/

/-- **Primitives are safe and do no more than they should**, for any arguments in any state. None
gets at a position that is not there. An operation gives a value or refuses its arguments; only its
call is reported, and as many evaluations are open as before. `println` binds nothing; it refuses to
print nothing, and otherwise it gives none unless the output fails. If `map` and `apply` are not
given what they want they refuse it and call nothing; if they are they fail just if the call of the
procedure has failed for one of the rows, after it has succeeded for those before. -/
theorem call_primitive (config : Config) (eval : Sexp → Run Value) (args : List Value)
    (s : State) :
    ((∀ op : Operation, op.computeAt args = checked (op.compute args)) ∧
      printedLineAt args = checked (printedLine args) ∧
      mapCallsAt args = checked (mapCalls args)) ∧
    (∀ op : Operation, ∃ r,
      ((∃ v, r = .ok v (s.reported (.called op.name args))) ∨
        ∃ m, r = .error (.misuse m) (s.reported (.called op.name args))) ∧
      call config eval (.primitive (.operation op)) args s = r ∧
      ∀ stack depth, Machine.Reaches config
        ⟨.call (.primitive (.operation op)) args, stack, depth, s⟩
        (Machine.ended r stack depth)) ∧
    (∃ r t, call config eval (.primitive .println) args s = r ∧ endState r = t ∧
      t.environment = s.environment ∧
      (args = [] → (∃ m, r = .error (.misuse m) t) ∧
        t = s.reported (.called Primitive.println.name [])) ∧
      (args ≠ [] → r = .ok .none t ∨ ∃ fault, r = .error (.output fault) t)) ∧
    ∀ p : Primitive, p = .map ∨ p = .apply →
      ((¬ ∃ f calls, p.Calls args f calls) → ∃ m, call config eval (.primitive p) args s =
        .error (.misuse m) (s.reported (.called p.name args))) ∧
      ∀ f calls, p.Calls args f calls → ∀ e t,
        call config eval (.primitive p) args s = .error e t ↔
          ∃ before row after results u, calls = before ++ row :: after ∧
            before.mapM (call config eval f) (s.reported (.called p.name args)) = .ok results u ∧
            call config eval f row u = .error e t := by
  refine ⟨⟨fun op => op.computeAt_eq args, printedLineAt_eq args, mapCallsAt_eq args⟩,
    fun op => ⟨_, ?_, rfl, Machine.reaches_operation op⟩, ?_,
    fun p hp => ⟨call_of_not_calls hp, fun f calls h e t => call_of_calls h⟩⟩
  · rw [call_operation_apply]
    cases op.compute args with
    | ok v => exact .inl ⟨v, rfl⟩
    | error m => exact .inr ⟨m, rfl⟩
  · by_cases hargs : args = []
    · subst hargs
      exact ⟨_, _, call_println_nil, rfl, rfl, fun _ => ⟨⟨_, rfl⟩, rfl⟩, fun h => absurd rfl h⟩
    · obtain ⟨t, ht, hok | ⟨fault, hfault⟩⟩ := call_println_cases hargs
      · exact ⟨_, t, hok, rfl, ht, fun h => absurd h hargs, fun _ => .inl rfl⟩
      · exact ⟨_, t, hfault, rfl, ht, fun h => absurd h hargs, fun _ => .inr ⟨fault, rfl⟩⟩

/-- The second of three calls that `map` makes is refused, and the third is not made. With a string
for a list it makes none. -/
theorem call_primitive_map :
    let s : State := ⟨.empty, #[], .start .unlimited, 0⟩
    let f := Procedure.primitive (.operation .length)
    let lists := [[Value.list [], .none, .list []]]
    let args := .function f :: lists.map .list
    call .standard (fun _ => pure .none) (.primitive .map) args s =
      .error (.misuse (.unexpected "length" .list .none))
        (((s.reported (.called "map" args)).reported (.called "length" [.list []])).reported
          (.called "length" [.none])) ∧
    ∃ m, call .standard (fun _ => pure .none) (.primitive .map) [.function f, .string "a"] s =
      .error (.misuse m) (s.reported (.called "map" [.function f, .string "a"])) := by
  intro s f lists args
  obtain ⟨-, -, -, hcalls⟩ := call_primitive .standard (fun _ => pure .none) args s
  obtain ⟨-, -, -, hrefused⟩ :=
    call_primitive .standard (fun _ => pure .none) [.function f, .string "a"] s
  refine ⟨((hcalls .map (.inl rfl)).2 f (rows lists) (.map f (by simp [lists])) _ _).2 ?_,
    (hrefused .map (.inl rfl)).1 ?_⟩
  · refine ⟨[[.list []]], [.none], [[.list []]], [.number 0], _, rfl, ?_, call_operation_apply _⟩
    rw [Run.mapM_cons_apply, call_operation_apply]
    rfl
  · rintro ⟨g, calls, h⟩
    generalize hargs : [Value.function f, .string "a"] = args at h
    cases h with
    | @map g lists hlists =>
      cases lists with
      | nil => exact hlists rfl
      | cons list lists => cases hargs

end MiniLisp

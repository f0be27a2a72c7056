import MiniLisp.Proofs.Primitive.Positions
import MiniLisp.Proofs.Run.Lockstep

/-!
# Higher-order calls

`apply` calls a procedure with the items of a list and `map` calls it with the rows of some lists. A
program can do the same by applying the procedure itself, once, or once a row inside a `list`, and
it comes to the same result, bindings and output (`Session.evaluateTree_higherOrder`).

The journals tell the two ways apart, so runs are compared in states that may differ in their
journals (`State.Agrees`). And an application inside a `list` has one less of the depth limit left
than a call that `map` makes; where it overflows, nothing is said of `map`.
-/

namespace MiniLisp

/-! ## Other journals -/

/-- The two states differ in their journals only. -/
structure State.Agrees (s t : State) : Prop where
  environment : t.environment = s.environment
  output : t.output = s.output
  declarations : t.declarations = s.declarations

namespace State.Agrees

variable {s t : State}

theorem refl (s : State) : Agrees s s :=
  ⟨rfl, rfl, rfl⟩

theorem reported_left (h : Agrees s t) (e : Event) : Agrees (s.reported e) t :=
  ⟨h.environment, h.output, h.declarations⟩

theorem reported_right (h : Agrees s t) (e : Event) : Agrees s (t.reported e) :=
  ⟨h.environment, h.output, h.declarations⟩

theorem reported (h : Agrees s t) (e : Event) : Agrees (s.reported e) (t.reported e) :=
  (h.reported_left e).reported_right e

theorem define (h : Agrees s t) (name : String) (value : Value) :
    Agrees { s with environment := s.environment.define name value }
      { t with environment := t.environment.define name value } :=
  { h with environment := congrArg (·.define name value) h.environment }

theorem withDeclarations (h : Agrees s t) (count : Nat) :
    Agrees { s with declarations := count } { t with declarations := count } :=
  { h with declarations := rfl }

theorem withOutput (h : Agrees s t) (o : Output) :
    Agrees { s with output := o } { t with output := o } :=
  { h with output := rfl }

end State.Agrees

namespace Simulation

/-- Runs on the same trees and values whose journals may differ. Of a left run that stops with an
excused fault nothing is asked. -/
def agreeing (excused : Fault → Prop) : Simulation :=
  same State.Agrees (fun _ => True) (fun _ => True) (fun e f => e = f) fun e _ _ => excused e

variable {excused : Fault → Prop}

theorem agreeing_steps : StepLaws State.Agrees (fun _ => True) (fun _ => True) where
  atom _ _ := True.intro
  found h _ := ⟨by rw [h.environment], fun _ _ => True.intro⟩
  reported h _ := h.reported _
  bound h _ _ := (h.reported _).define _ _
  declarations h := h.declarations
  procedure _ _ _ _ := True.intro
  counted h := h.declarations ▸ h.withDeclarations _

theorem printLine_agreeing (config : Config) (line : String) :
    (agreeing excused).Runs (fun _ _ => True) (Run.printLine config line)
      (Run.printLine config line) := by
  refine .printLine (fun h => ?_) (fun h => h.reported _) (fun h => ?_) fun _ => rfl
  · rw [h.output]
  · rw [h.output]
    exact (h.reported _).withOutput _

/-- No step of a run looks at the journal. -/
theorem agreeing_laws (excused : Fault → Prop) (config : Config) :
    SameLaws State.Agrees (fun _ => True) (fun _ => True) (fun e f => e = f)
      (fun e _ _ => excused e) config config :=
  agreeing_steps.sameLaws (fun h _ => h) (fun _ => rfl) (fun _ => rfl)
    (fun _ => agreeing_steps.evaluateAtom (fun _ => rfl) True.intro) (printLine_agreeing config)

/-- A call goes the same way within a larger budget, if an overflow is excused. -/
theorem call_agreeing (config : Config) (budget surplus : Nat)
    (hsurplus : surplus = 0 ∨ ∀ l, excused (.overflow l)) (f : Procedure) (args : List Value) :
    (agreeing excused).Runs (fun v w => True ∧ v = w) (call config (evaluate config budget) f args)
      (call config (evaluate config (budget + surplus)) f args) := by
  have hover : ∀ t u, (agreeing excused).tree t u → (agreeing excused).Runs
      (fun v w => True ∧ v = w) (throw (.overflow config.maxDepth)) (evaluate config surplus u) := by
    intro t u _
    rcases hsurplus with rfl | hexcused
    · exact .throw rfl
    · exact fun _ _ _ => .cut (hexcused _)
  have L := (agreeing_laws excused config).lawful
  exact L.call (fun t u htu => L.evaluate surplus hover budget htu) (evaluate_grows _ _)
    ⟨True.intro, rfl⟩ (forall₂_and_eq_iff.2 ⟨fun _ _ => True.intro, rfl⟩)

end Simulation

/-! ## Applications to values -/

/-- A procedure applied to values that stand in the tree. -/
def Sexp.applied (f : Procedure) (args : List Value) : Sexp :=
  .expression (.atom (.function f) :: args.map .atom)

section Literals

variable {config : Config} {args : List Value} (hargs : ∀ v ∈ args, ∀ name, v ≠ .symbol name)

include hargs in
theorem mapM_literals (budget : Nat) (s : State) :
    (args.map .atom).mapM (evaluate config (budget + 1)) s = .ok args s := by
  induction args with
  | nil => rfl
  | cons v args ih =>
    obtain ⟨hv, hargs⟩ := List.forall_mem_cons.1 hargs
    rw [List.map_cons, Run.mapM_cons_apply, evaluate_literal hv]
    dsimp only
    rw [ih hargs]

include hargs in
/-- An application to values calls its procedure with them. -/
theorem evaluate_literals {budget : Nat} {head : Sexp} {f : Procedure} {s : State}
    (hform : head.form? = none)
    (hhead : evaluate config (budget + 1) head s = .ok (.function f) s) :
    evaluate config (budget + 2) (.expression (head :: args.map .atom)) s =
      call config (evaluate config (budget + 1)) f args s := by
  rw [evaluate_application hform hhead, Run.andThen_apply, mapM_literals hargs]

include hargs in
theorem evaluate_applied (budget : Nat) (f : Procedure) (s : State) :
    evaluate config (budget + 2) (.applied f args) s =
      call config (evaluate config (budget + 1)) f args s :=
  evaluate_literals hargs rfl rfl

end Literals

section Named

variable {config : Config} {budget : Nat} {s : State} (f : Procedure)

theorem evaluate_apply (happly : s.environment.get? "apply" = some (.function (.primitive .apply)))
    (items : List Value) :
    evaluate config (budget + 2)
        (.expression [.atom (.symbol "apply"), .atom (.function f), .atom (.list items)]) s =
      call config (evaluate config (budget + 1)) f items
        (s.reported (.called Primitive.apply.name [.function f, .list items])) := by
  have hargs : ∀ v ∈ [Value.function f, .list items], ∀ name, v ≠ .symbol name := by simp
  refine (evaluate_literals hargs rfl (evaluate_symbol happly)).trans ?_
  rw [call_apply, applyCall_eq_ok.2 rfl, Run.andThen_apply, Run.report_apply]

theorem evaluate_map (hmap : s.environment.get? "map" = some (.function (.primitive .map)))
    {columns : List (List Value)} (hcolumns : columns ≠ []) :
    evaluate config (budget + 2) (.expression (.atom (.symbol "map") :: .atom (.function f) ::
        columns.map fun items => .atom (.list items))) s =
      ((rows columns).mapM (call config (evaluate config (budget + 1)) f) >>= fun results =>
        pure (.list results) : Run Value)
        (s.reported (.called Primitive.map.name (.function f :: columns.map .list))) := by
  have hargs : ∀ v ∈ Value.function f :: columns.map .list, ∀ name, v ≠ .symbol name := by simp
  have htrees : (columns.map fun items => Sexp.atom (.list items)) =
      (columns.map Value.list).map .atom := List.map_map.symm
  rw [htrees]
  refine (evaluate_literals hargs rfl (evaluate_symbol hmap)).trans ?_
  rw [call_map, mapCalls_lists f hcolumns, Run.andThen_apply, Run.report_apply]

theorem evaluate_listing
    (hlist : s.environment.get? "list" = some (.function (.primitive (.operation .list))))
    (operands : List Sexp) :
    evaluate config (budget + 2) (.expression (.atom (.symbol "list") :: operands)) s =
      (operands.mapM (evaluate config (budget + 1)) >>= fun results => do
        Run.report (.called Operation.list.name results)
        return .list results : Run Value) s := by
  have hcall : call config (evaluate config (budget + 1)) (.primitive (.operation .list)) =
      fun results => do
        Run.report (.called Operation.list.name results)
        return .list results :=
    funext fun results => call_operation config _ .list results
  rw [evaluate_application rfl (evaluate_symbol hlist), hcall]

end Named

namespace Simulation

/-- Of a run that overflows nothing is asked. -/
abbrev Overflows (e : Fault) : Prop :=
  ∃ l, e = .overflow l

/-- An application is a call, within a budget that is less by one. -/
theorem applied_agreeing (config : Config) (budget : Nat) (f : Procedure) {args : List Value}
    (hargs : ∀ v ∈ args, ∀ name, v ≠ .symbol name) :
    (agreeing Overflows).Runs (fun v w => True ∧ v = w)
      (evaluate config (budget + 1) (.applied f args))
      (call config (evaluate config (budget + 1)) f args) := by
  cases budget with
  | zero =>
    -- the procedure itself is out of reach
    exact fun _ _ _ => .cut ⟨config.maxDepth, rfl⟩
  | succ budget =>
    intro s t hst
    rw [evaluate_applied hargs]
    exact call_agreeing config (budget + 1) 1 (.inr fun l => ⟨l, rfl⟩) f args s t hst

/-- So are several, one after the other. -/
theorem mapM_applied_agreeing (config : Config) (budget : Nat) (f : Procedure)
    {calls : List (List Value)} (hcalls : ∀ args ∈ calls, ∀ v ∈ args, ∀ name, v ≠ .symbol name) :
    (agreeing Overflows).Runs (List.Forall₂ fun v w => True ∧ v = w)
      ((calls.map (Sexp.applied f)).mapM (evaluate config (budget + 1)))
      (calls.mapM (call config (evaluate config (budget + 1)) f)) := by
  have hforall : List.Forall₂
      (fun t args => t = Sexp.applied f args ∧ ∀ v ∈ args, ∀ name, v ≠ .symbol name)
      (calls.map (Sexp.applied f)) calls :=
    List.forall₂_map_left_iff.2 (List.forall₂_same.2 fun args hargs => ⟨rfl, hcalls args hargs⟩)
  refine Runs.mapM (fun h _ => h) hforall (fun t _ args h => ?_)
    fun _ => call_grows (evaluate_grows _ _) _ _
  obtain ⟨rfl, hargs⟩ := h
  exact applied_agreeing config budget f hargs

end Simulation

/-! ## Sessions -/

namespace Session

/-- Two runs with the same result, which have bound and written the same. -/
structure SameOutcome (x y : Except Fault Value × Session) : Prop where
  result : y.1 = x.1
  environment : y.2.environment = x.2.environment
  output : y.2.state.output = x.2.state.output

/-- Runs from the same session that go the same way. -/
theorem sameOutcome_of_ends (excused : Fault → Prop) {s : Session} {x y : Run Value}
    (h : (Simulation.agreeing excused).Outcome (fun v w => True ∧ v = w) (x s.state) (y s.state))
    (hexcused : ∀ e, (s.run x).1 = .error e → ¬ excused e) : SameOutcome (s.run x) (s.run y) := by
  have key := h.answered
  generalize s.run x = r at key hexcused ⊢
  generalize s.run y = q at key ⊢
  cases key with
  | returned hvw hst =>
    obtain ⟨-, rfl⟩ := hvw
    exact ⟨rfl, hst.environment, hst.output⟩
  | failed hef hst =>
    obtain rfl := hef
    exact ⟨rfl, hst.environment, hst.output⟩
  | cut h => exact absurd h (hexcused _ rfl)

variable {s : Session} (f : Procedure)

/-- Handing a list to `apply` is applying the procedure to its items. -/
theorem evaluateTree_apply
    (happly : s.environment.get? "apply" = some (.function (.primitive .apply)))
    {items : List Value} (hitems : ∀ v ∈ items, ∀ name, v ≠ .symbol name) :
    SameOutcome (s.evaluateTree (.applied f items)) (s.evaluateTree
      (.expression [.atom (.symbol "apply"), .atom (.function f), .atom (.list items)])) := by
  obtain ⟨⟨depth, echo⟩, state⟩ := s
  match depth with
  | 0 | 1 => exact ⟨rfl, rfl, rfl⟩
  | budget + 2 =>
    refine sameOutcome_of_ends (fun _ => False) ?_ fun _ _ => id
    change Simulation.Outcome _ _ (evaluate ⟨budget + 2, echo⟩ (budget + 2) _ state)
      (evaluate ⟨budget + 2, echo⟩ (budget + 2) _ state)
    rw [evaluate_applied hitems, evaluate_apply f happly]
    exact Simulation.call_agreeing _ _ 0 (.inl rfl) f items _ _
      ((State.Agrees.refl state).reported_right _)

/-- Handing lists to `map` is listing the applications of the procedure to their rows. -/
theorem evaluateTree_map (hmap : s.environment.get? "map" = some (.function (.primitive .map)))
    (hlist : s.environment.get? "list" = some (.function (.primitive (.operation .list))))
    {columns : List (List Value)} (hcolumns : columns ≠ [])
    (hvalues : ∀ items ∈ columns, ∀ v ∈ items, ∀ name, v ≠ .symbol name) :
    let listed := s.evaluateTree
      (.expression (.atom (.symbol "list") :: (rows columns).map (.applied f)))
    (∀ d, listed.1 ≠ .error (.overflow d)) → SameOutcome listed (s.evaluateTree
      (.expression (.atom (.symbol "map") :: .atom (.function f) ::
        columns.map fun items => .atom (.list items)))) := by
  dsimp only
  obtain ⟨⟨depth, echo⟩, state⟩ := s
  match depth with
  | 0 => exact fun hlisted => absurd rfl (hlisted 0)
  | 1 => exact fun hlisted => absurd rfl (hlisted 1)
  | budget + 2 =>
    refine fun hlisted => sameOutcome_of_ends Simulation.Overflows ?_ fun e he hover => ?_
    · change Simulation.Outcome _ _ (evaluate ⟨budget + 2, echo⟩ (budget + 2) _ state)
        (evaluate ⟨budget + 2, echo⟩ (budget + 2) _ state)
      rw [evaluate_listing hlist, evaluate_map f hmap hcolumns]
      refine (Simulation.mapM_applied_agreeing _ budget f (mem_rows hvalues)).andThen (fun h _ => h)
        (fun results results' hresults => ?_) (fun _ => .pure _) _ _
        ((State.Agrees.refl state).reported_right _)
      obtain ⟨-, rfl⟩ := Simulation.forall₂_and_eq_iff.1 hresults
      intro u v huv
      exact .returned ⟨True.intro, rfl⟩ (huv.reported_left _)
    · obtain ⟨d, rfl⟩ := hover
      exact hlisted d he

/-- **Higher-order calls are direct calls.** A procedure that is handed to `apply` with a list, or
to `map` with lists, gives the result, the bindings and the output of its application to the items
of the list, or of a `list` of its applications to the items at each position of the shortest list,
unless that overflows. -/
theorem evaluateTree_higherOrder
    (happly : s.environment.get? "apply" = some (.function (.primitive .apply)))
    (hmap : s.environment.get? "map" = some (.function (.primitive .map)))
    (hlist : s.environment.get? "list" = some (.function (.primitive (.operation .list)))) :
    (∀ items : List Value, (∀ v ∈ items, ∀ name, v ≠ .symbol name) →
      SameOutcome (s.evaluateTree (.expression (.atom (.function f) :: items.map .atom)))
        (s.evaluateTree
          (.expression [.atom (.symbol "apply"), .atom (.function f), .atom (.list items)]))) ∧
    ∀ columns : List (List Value), columns ≠ [] →
      (∀ items ∈ columns, ∀ v ∈ items, ∀ name, v ≠ .symbol name) →
      let row := fun i => columns.map (·.getD i .none)
      let listed := s.evaluateTree (.expression (.atom (.symbol "list") ::
        (List.range (shortest columns)).map fun i =>
          .expression (.atom (.function f) :: (row i).map .atom)))
      (∀ d, listed.1 ≠ .error (.overflow d)) →
      SameOutcome listed (s.evaluateTree (.expression (.atom (.symbol "map") ::
        .atom (.function f) :: columns.map fun items => .atom (.list items)))) := by
  refine ⟨fun items => evaluateTree_apply f happly, fun columns hcolumns hvalues => ?_⟩
  have hmapped := evaluateTree_map f hmap hlist hcolumns hvalues
  rw [rows_eq .none, List.map_map] at hmapped
  exact hmapped

/-- A procedure that binds a name, applied to two values and mapped over lists of which the second
one is shorter. -/
theorem evaluateTree_higherOrder_shorter :
    let s : Session := ⟨⟨5, true⟩, ⟨.ofList [("apply", .function (.primitive .apply)),
      ("map", .function (.primitive .map)), ("list", .function (.primitive (.operation .list)))],
      #[], .start .unlimited, 0⟩⟩
    let f := Procedure.declared 0 "keep" ["x", "y"]
      (.expression [.atom (.symbol "set"), .atom (.symbol "last"), .placeholder 1])
    let items := [Value.string "a", .boolean true]
    let columns := [[Value.string "a", .string "b"], [.boolean true]]
    let applied := s.evaluateTree
      (.expression [.atom (.symbol "apply"), .atom (.function f), .atom (.list items)])
    let mapped := s.evaluateTree (.expression (.atom (.symbol "map") :: .atom (.function f) ::
      columns.map fun items => .atom (.list items)))
    (∀ v ∈ items, ∀ name, v ≠ .symbol name) ∧
      (∀ items ∈ columns, ∀ v ∈ items, ∀ name, v ≠ .symbol name) ∧
      applied.1 = .ok .none ∧ applied.2.environment.get? "last" = some (.boolean true) ∧
      mapped.1 = .ok (.list [.none]) ∧
      mapped.2.environment.get? "last" = some (.boolean true) := by
  intro s f items columns applied mapped
  have hitems : ∀ v ∈ items, ∀ name, v ≠ .symbol name := by simp [items]
  have hcolumns : ∀ items ∈ columns, ∀ v ∈ items, ∀ name, v ≠ .symbol name := by simp [columns]
  have hset : ∀ budget u, ∃ t : State, t.environment.get? "last" = some (.boolean true) ∧
      MiniLisp.call s.config (evaluate s.config (budget + 2)) f items u = .ok .none t := by
    intro budget u
    refine ⟨_, ?_, (congrFun (call_declared _ _ 0 "keep" ["x", "y"] _ items) u).trans rfl⟩
    exact (Environment.get?_define _ _ _ _).trans (if_pos rfl)
  obtain ⟨happly, hmap⟩ := evaluateTree_higherOrder (s := s) f rfl rfl rfl
  -- the direct application, and the one in a list
  obtain ⟨t, ht, hcall⟩ := hset 2 s.state
  have hdirect : s.evaluateTree (.applied f items) = (.ok .none, ⟨s.config, t⟩) :=
    run_of_ok ((evaluate_applied hitems 3 f s.state).trans hcall)
  obtain ⟨u, hu, hrow⟩ := hset 1 s.state
  have hlisted : s.evaluateTree (.expression [.atom (.symbol "list"), .applied f items]) =
      (.ok (.list [.none]), ⟨s.config, u.reported (.called Operation.list.name [.none])⟩) := by
    refine run_of_ok ((evaluate_listing rfl [.applied f items]).trans ?_)
    rw [Run.andThen_apply, Run.mapM_cons_apply, evaluate_applied hitems, hrow]
    rfl
  have happlied := happly items hitems
  have hmapped := hmap columns (List.cons_ne_nil _ _) hcolumns fun d hd => by
    cases (congrArg Prod.fst hlisted).symm.trans hd
  exact ⟨hitems, hcolumns, happlied.result.trans (congrArg Prod.fst hdirect),
    (congrArg (·.get? "last") (happlied.environment.trans
      (congrArg (·.2.environment) hdirect))).trans ht,
    hmapped.result.trans (congrArg Prod.fst hlisted),
    (congrArg (·.get? "last") (hmapped.environment.trans
      (congrArg (·.2.environment) hlisted))).trans hu⟩

end Session

end MiniLisp

import MiniLisp.Proofs.Run.Depth

/-!
# Sequences

An application of `begin` evaluates its operands one after the other, up to the first that fails,
and gives the value of the last one (`Session.evaluateTree_begin`). It takes one more of the depth
limit than its operands do by themselves.

What a tree is evaluated to depends on the budget that is left and not on the limit that it was
taken from: the limit only labels the overflow (`evaluate_limit`). So the operands may be evaluated
under their own limit, of which they have all.
-/

namespace MiniLisp

/-- A fault under another limit: an overflow is labelled with it. -/
def Fault.under (limit : Nat) : Fault → Fault
  | .overflow _ => .overflow limit
  | fault => fault

theorem Fault.under_of_ne_overflow {limit : Nat} {e : Fault} (he : ∀ l, e ≠ .overflow l) :
    e.under limit = e := by
  cases e with
  | overflow l => exact absurd rfl (he l)
  | _ => rfl

/-! ## The limit as a label -/

namespace Simulation

/-- Runs in the same states under two limits, of which the second one is `limit`. -/
def labelled (limit : Nat) : Simulation :=
  same (· = ·) (fun _ => True) (fun _ => True) (fun e f => f = e.under limit) fun _ _ _ => False

theorem labelled_laws (limit limit' : Nat) (echo : Bool) :
    (labelled limit').Lawful ⟨limit, echo⟩ ⟨limit', echo⟩ :=
  (limits_laws (fun _ he => (Fault.under_of_ne_overflow he).symm) (fun h _ => h) limit limit'
    echo).lawful

theorem evaluate_labelled (limit limit' : Nat) (echo : Bool) (budget : Nat) (tree : Sexp) :
    (labelled limit').Runs (fun v w => True ∧ v = w) (evaluate ⟨limit, echo⟩ budget tree)
      (evaluate ⟨limit', echo⟩ budget tree) :=
  (labelled_laws limit limit' echo).evaluate 0 (fun _ _ _ => .throw rfl) budget
    ⟨True.intro, rfl⟩

end Simulation

/-- The end of a run under another limit. -/
def endUnder (limit : Nat) : EStateM.Result Fault State α → EStateM.Result Fault State α
  | .ok a s => .ok a s
  | .error e s => .error (e.under limit) s

/-- **The limit is a label.** With the same budget a tree is evaluated alike under all limits, but
for the limit that an overflow names. -/
theorem evaluate_limit (limit limit' : Nat) (echo : Bool) (budget : Nat) (tree : Sexp) (s : State) :
    evaluate ⟨limit', echo⟩ budget tree s =
      endUnder limit' (evaluate ⟨limit, echo⟩ budget tree s) := by
  have key := Simulation.evaluate_labelled limit limit' echo budget tree s s rfl
  generalize evaluate ⟨limit, echo⟩ budget tree s = x at key ⊢
  generalize evaluate ⟨limit', echo⟩ budget tree s = y at key ⊢
  cases key with
  | returned hvw hs =>
    obtain ⟨-, rfl⟩ := hvw
    obtain rfl := hs
    rfl
  | failed hef hs =>
    obtain rfl := hef
    obtain rfl := hs
    rfl
  | cut h => exact h.elim

/-! ## One tree after another -/

namespace Session

/-- Evaluates some trees one after the other, up to the first that fails, and gives the value of the
last one. -/
def evaluateInOrder (s : Session) (first : Sexp) : List Sexp → Except Fault Value × Session
  | [] => s.evaluateTree first
  | second :: rest =>
    match s.evaluateTree first with
    | (.ok _, after) => after.evaluateInOrder second rest
    | (.error fault, after) => (.error fault, after)

end Session

/-- What an evaluation of several trees by a run under `limit` comes to, in terms of an evaluation
in order: the last of the values, or the fault. -/
inductive Gathered (limit : Nat) (config : Config) :
    EStateM.Result Fault State (List Value) → Except Fault Value × Session → Prop
  | ok {values v state} (h : values.getLast? = some v) :
    Gathered limit config (.ok values state) (.ok v, ⟨config, state⟩)
  | error {fault state} :
    Gathered limit config (.error (fault.under limit) state) (.error fault, ⟨config, state⟩)

/-- Operands are evaluated in order, each from where the one before it has ended. -/
theorem gathered_mapM (limit depth : Nat) (echo : Bool) (first : Sexp) (rest : List Sexp)
    (state : State) :
    Gathered limit ⟨depth, echo⟩ ((first :: rest).mapM (evaluate ⟨limit, echo⟩ depth) state)
      (Session.evaluateInOrder ⟨⟨depth, echo⟩, state⟩ first rest) := by
  induction rest generalizing first state with
  | nil =>
    rw [Run.mapM_cons_apply, evaluate_limit depth limit, Session.evaluateInOrder,
      Session.evaluateTree]
    cases h : evaluate ⟨depth, echo⟩ depth first state with
    | ok v after =>
      rw [Session.run_of_ok h]
      exact .ok rfl
    | error fault after =>
      rw [Session.run_of_error h]
      exact .error
  | cons second rest ih =>
    rw [Run.mapM_cons_apply, evaluate_limit depth limit, Session.evaluateInOrder,
      Session.evaluateTree]
    cases h : evaluate ⟨depth, echo⟩ depth first state with
    | error fault after =>
      rw [Session.run_of_error h]
      exact .error
    | ok v after =>
      rw [Session.run_of_ok h]
      have key := ih second after
      dsimp only [endUnder]
      generalize (second :: rest).mapM (evaluate ⟨limit, echo⟩ depth) after = r at key ⊢
      generalize Session.evaluateInOrder _ second rest = parts at key ⊢
      cases key with
      | ok hlast =>
        refine .ok ?_
        rw [List.getLast?_cons, hlast]
        rfl
      | error => exact .error

/-! ## Applications of `begin` -/

/-- An application of `begin` evaluates its head, which is found in the environment, and then its
operands. -/
theorem evaluate_begin {config : Config} {budget : Nat} {operands : List Sexp} {s : State}
    (hbegin : s.environment.get? Operation.begin.name =
      some (.function (.primitive (.operation .begin)))) :
    evaluate config (budget + 2)
        (.expression (.atom (.symbol Operation.begin.name) :: operands)) s =
      match operands.mapM (evaluate config (budget + 1)) s with
      | .error e t => .error e t
      | .ok values t => Run.ofExcept (Operation.begin.compute values)
          (t.reported (.called Operation.begin.name values)) := by
  have hhead : evaluate config (budget + 1) (.atom (.symbol Operation.begin.name)) s =
      .ok (.function (.primitive (.operation .begin))) s := evaluate_symbol hbegin
  rw [evaluate_application rfl hhead, Run.andThen_apply]
  cases operands.mapM (evaluate config (budget + 1)) s with
  | error e t => rfl
  | ok values t =>
    dsimp only
    rw [call_operation, Run.andThen_apply, Run.report_apply]

namespace Session

/-- **An application of `begin` is a sequence.** It has the result, the bindings and the output of
its operands evaluated one after the other under a limit that is less by one, up to the first that
fails, except that an overflow is labelled with the limit in force. -/
theorem evaluateTree_begin {s : Session}
    (hbegin : s.environment.get? "begin" = some (.function (.primitive (.operation .begin))))
    (first : Sexp) (rest : List Sexp) :
    let limit := s.config.maxDepth + 1
    let whole := (s.withLimit limit).evaluateTree
      (.expression (.atom (.symbol "begin") :: first :: rest))
    let parts := s.evaluateInOrder first rest
    whole.1 = parts.1.mapError (Fault.under limit) ∧
      whole.2.environment = parts.2.environment ∧
      whole.2.state.output = parts.2.state.output := by
  obtain ⟨⟨depth, echo⟩, state⟩ := s
  intro limit whole parts
  cases depth with
  | zero =>
    -- nothing is left for the head, and nothing would be for the first operand
    have hparts : parts = (.error (.overflow 0), ⟨⟨0, echo⟩, state⟩) := by
      cases rest <;> rfl
    rw [hparts]
    exact ⟨rfl, rfl, rfl⟩
  | succ depth =>
    have hrun : evaluate ⟨depth + 2, echo⟩ (depth + 2)
        (.expression (.atom (.symbol "begin") :: first :: rest)) state = _ :=
      evaluate_begin hbegin
    have key := gathered_mapM (depth + 2) (depth + 1) echo first rest state
    change Gathered _ _ _ parts at key
    generalize (first :: rest).mapM (evaluate ⟨depth + 2, echo⟩ (depth + 1)) state = r at hrun key
    generalize parts = ended at key ⊢
    cases key with
    | @ok values v after hlast =>
      have hwhole : whole = (.ok v, ⟨⟨depth + 2, echo⟩,
          after.reported (.called Operation.begin.name values)⟩) := by
        refine run_of_ok (hrun.trans ?_)
        dsimp only
        rw [Operation.compute, hlast]
        rfl
      rw [hwhole]
      exact ⟨rfl, rfl, rfl⟩
    | @error fault after =>
      have hwhole : whole = (.error (fault.under (depth + 2)), ⟨⟨depth + 2, echo⟩, after⟩) :=
        run_of_error hrun
      rw [hwhole]
      exact ⟨rfl, rfl, rfl⟩

/-- The first operand binds `begin` to something else and the second one is out of reach: what has
been bound stays bound. -/
theorem evaluateTree_begin_rebound :
    let s := Session.start ⟨2, true⟩ .unlimited
    let first := Sexp.expression [.atom (.symbol "define"), .atom (.symbol "begin"), .atom .none]
    let second := Sexp.expression [.expression [.atom (.symbol "begin")]]
    let whole := (s.withLimit 3).evaluateTree
      (.expression [.atom (.symbol "begin"), first, second])
    s.environment.get? "begin" = some (.function (.primitive (.operation .begin))) ∧
      whole.1 = .error (.overflow 3) ∧ whole.2.environment.get? "begin" = some .none := by
  intro s first second whole
  have hbegin : s.environment.get? "begin" = some (.function (.primitive (.operation .begin))) :=
    rfl
  obtain ⟨hresult, hbindings, -⟩ := evaluateTree_begin hbegin first [second]
  exact ⟨hbegin, hresult, hbindings ▸ rfl⟩

end Session

end MiniLisp

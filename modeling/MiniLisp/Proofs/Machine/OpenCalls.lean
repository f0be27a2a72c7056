import MiniLisp.Proofs.Machine.Bounds
import MiniLisp.Proofs.Run.Sound
import MiniLisp.Proofs.Session.Steps

/-!
# How many calls are open

The depth limit counts evaluations, not calls. A call of a procedure that a program has declared
opens an evaluation, so no more of these can be open than the limit leaves and one more; and a run
that would nest deeper ends in an overflow.

A call by `map` or `apply` opens none. Such calls are bounded by the limit together with the size of
the arguments (`Machine.calls_bounded`), but not by the limit alone: a list that hands `apply` on to
`apply` can be made longer by a program of constant depth, again and again, and a single application
of it then has as many calls open as the list is deep (`Machine.exists_called`).
-/

namespace MiniLisp

namespace Machine

variable {config : Config} {stack : List Frame} {depth : Nat} {s : State}

/-- How many calls are open. -/
def called : List Frame → Nat
  | [] => 0
  | .activation _ _ :: stack => called stack + 1
  | _ :: stack => called stack

/-- How many calls of procedures that a program has declared are open. -/
def calledDeclared : List Frame → Nat
  | [] => 0
  | .activation (.declared _ _ _ _) _ :: stack => calledDeclared stack + 1
  | _ :: stack => calledDeclared stack

/-! ## Bounds -/

/-- Each call of a declared procedure has an evaluation above it, except for one that has just
begun. -/
theorem calledDeclared_le (h : Nested stack) :
    calledDeclared stack ≤ opened stack + 1 ∧
      ((∀ p ∈ caller stack, ∃ q, p.1 = .primitive q) → calledDeclared stack ≤ opened stack) := by
  induction stack with
  | nil => exact ⟨Nat.zero_le _, fun _ => Nat.le_refl _⟩
  | cons frame stack ih =>
    obtain ⟨hfits, hnested⟩ := h
    obtain ⟨hle, hprovided⟩ := ih hnested
    cases frame with
    | evaluation => exact ⟨Nat.le_succ_of_le hle, fun _ => hle⟩
    | activation f args =>
      have hbelow : calledDeclared stack ≤ opened stack := hprovided fun p hp => (hfits p hp).1
      cases f with
      | primitive q => exact ⟨Nat.le_succ_of_le hbelow, fun _ => hbelow⟩
      | declared id name parameters template =>
        refine ⟨Nat.succ_le_succ hbelow, fun hcaller => ?_⟩
        obtain ⟨q, hq⟩ := hcaller _ rfl
        cases hq
    | rows f known rest => exact ⟨hle, hprovided⟩
    | branches _ _ | assignment _ _ | operator _ | arguments _ _ _ =>
      have hnone : caller stack = none := hfits
      exact ⟨hle, fun _ => hprovided (by rw [hnone]; nofun)⟩

/-- Calls between two evaluations have ever smaller arguments, so there are no more of them than
the size of the first ones and one more. -/
theorem called_le (h : Nested stack) {size : Nat}
    (hsize : ∀ f args, .activation f args ∈ stack → Value.sizes args ≤ size) :
    (caller stack = none → called stack ≤ opened stack * (size + 1)) ∧
      ∀ p ∈ caller stack, called stack + Value.sizes p.2 ≤ (opened stack + 1) * (size + 1) := by
  induction stack with
  | nil => exact ⟨fun _ => Nat.zero_le _, nofun⟩
  | cons frame stack ih =>
    obtain ⟨hfits, hnested⟩ := h
    obtain ⟨hnone, hsome⟩ := ih hnested fun f args hmem => hsize f args (List.mem_cons_of_mem _ hmem)
    cases frame with
    | evaluation =>
      refine ⟨fun _ => ?_, nofun⟩
      change called stack ≤ (opened stack + 1) * (size + 1)
      cases hcaller : caller stack with
      | none => exact Nat.le_trans (hnone hcaller) (Nat.mul_le_mul_right _ (Nat.le_succ _))
      | some p => exact Nat.le_trans (Nat.le_add_right _ _) (hsome p hcaller)
    | activation f args =>
      refine ⟨nofun, fun p hp => ?_⟩
      obtain rfl := Option.mem_some.1 hp
      change called stack + 1 + Value.sizes args ≤ (opened stack + 1) * (size + 1)
      cases hcaller : caller stack with
      | none =>
        have hbelow := hnone hcaller
        have hargs := hsize f args List.mem_cons_self
        rw [Nat.succ_mul]
        omega
      | some q =>
        have hbelow := hsome q hcaller
        have hsmaller := (hfits q hcaller).2
        omega
    | rows f known rest => exact ⟨hnone, hsome⟩
    | branches _ _ | assignment _ _ | operator _ | arguments _ _ _ =>
      have hbelow := hnone hfits
      exact ⟨fun _ => hbelow, nofun⟩

/-- A machine that has failed has no other way than to take the fault past all frames. -/
theorem failed_of_reaches {m n : Machine} (h : Reaches config m n) {e : Fault}
    (hm : m.control = .failed e) : n.control = .failed e := by
  induction h with
  | refl => exact hm
  | @tail n next _ hstep ih =>
    obtain ⟨control, stack, depth, s⟩ := n
    obtain rfl : control = .failed e := ih
    cases stack with
    | nil => cases hstep
    | cons frame stack =>
      cases hstep
      cases frame <;> rfl

/-- **Open calls are bounded by the limit and the size of the arguments.** Of procedures that a
program has declared no more calls are open than the limit leaves evaluations, and one more. All
calls together are at most that many times as many as the largest arguments are large, with one more
each time. A run in which evaluations are nested deeper than the limit ends in the overflow. -/
theorem calls_bounded (config : Config) (control : Control) (depth : Nat) (s : State)
    (count : Nat) :
    let budget := config.maxDepth - depth
    let m := run config ⟨control, [], depth, s⟩ count
    calledDeclared m.stack ≤ budget + 1 ∧
      (∀ size, (∀ f args, .activation f args ∈ m.stack → Value.sizes args ≤ size) →
        called m.stack ≤ (budget + 1) * (size + 1)) ∧
      (opened m.stack = budget + 1 →
        ∃ t, outcome config depth control s = .error (.overflow config.maxDepth) t) := by
  intro budget m
  have hbounded : Bounded config budget m :=
    .of_invariants (counted_run config control depth s count)
      (orderly_run config control depth s count)
  have hnested : Nested m.stack := (orderly_run config control depth s count).1
  refine ⟨?_, fun size hsize => ?_, fun hlast => ?_⟩
  · obtain ⟨hle, hprovided⟩ := calledDeclared_le hnested
    rcases Nat.lt_or_eq_of_le hbounded.opened_le with hlt | hlast
    · omega
    · obtain ⟨-, below, hbelow⟩ := hbounded.overflow hlast
      have hopened := hprovided (by rw [hbelow]; nofun)
      omega
  · obtain ⟨hnone, hsome⟩ := called_le hnested hsize
    cases hcaller : caller m.stack with
    | none => exact Nat.le_trans (hnone hcaller) (Nat.mul_le_mul_right _ hbounded.opened_le)
    | some p =>
      -- the frame on top is no evaluation, so the last evaluation is not open
      have hopened : opened m.stack ≤ budget := by
        refine Nat.le_of_lt_succ (Nat.lt_of_le_of_ne hbounded.opened_le fun hlast => ?_)
        obtain ⟨-, below, hbelow⟩ := hbounded.overflow hlast
        rw [hbelow] at hcaller
        cases hcaller
      have hle := hsome p hcaller
      exact Nat.le_trans (Nat.le_trans (Nat.le_add_right _ _) hle)
        (Nat.mul_le_mul_right _ (Nat.succ_le_succ hopened))
  · obtain ⟨hfailed, -⟩ := hbounded.overflow hlast
    have hend := (reaches_run config _ count).to_end (reaches_outcome config control depth s)
      (step_ended config _ depth)
    have houtcome := failed_of_reaches hend hfailed
    cases hr : outcome config depth control s with
    | ok v t =>
      rw [hr] at houtcome
      cases houtcome
    | error e t =>
      rw [hr] at houtcome
      cases houtcome
      exact ⟨t, rfl⟩

/-! ## Lists that are handed on -/

/-- Arguments of `apply` with which it calls itself again, as often as told. -/
def handedOn : Nat → List Value
  | 0 => [.function (.primitive (.operation .list)), .list []]
  | n + 1 => [.function (.primitive .apply), .list (handedOn n)]

theorem call_handedOn (config : Config) (eval : Sexp → Run Value) (n : Nat) (s : State) :
    ∃ t, MiniLisp.call config eval (.primitive .apply) (handedOn n) s = .ok (.list []) t := by
  induction n generalizing s with
  | zero =>
    have hcall : applyCall (handedOn 0) = .ok (.primitive (.operation .list), []) := rfl
    rw [call_apply, hcall, Run.andThen_apply, Run.report_apply]
    dsimp only
    rw [call_operation]
    exact ⟨_, rfl⟩
  | succ n ih =>
    rw [call_apply, Run.andThen_apply, Run.report_apply]
    exact ih _

theorem reaches_handedOn (config : Config) (n : Nat) (stack : List Frame) (depth : Nat)
    (s : State) : ∃ m, Reaches config ⟨.call (.primitive .apply) (handedOn n), stack, depth, s⟩ m ∧
      called m.stack = called stack + n + 1 := by
  induction n generalizing stack s with
  | zero => exact ⟨_, .step rfl (.refl _), rfl⟩
  | succ n ih =>
    obtain ⟨m, hm, hcalled⟩ := ih (.activation (.primitive .apply) (handedOn (n + 1)) :: stack)
      (s.reported (.called Primitive.apply.name (handedOn (n + 1))))
    refine ⟨m, .step rfl hm, hcalled.trans ?_⟩
    change called stack + 1 + n + 1 = _
    omega

section Programs

variable {limit : Nat} {echo : Bool}

/-- Two trees that a program as shallow as this evaluates without an effect. -/
theorem evaluate_list {a b : Sexp} {v w : Value}
    (ha : ∀ t : State, t.environment = s.environment →
      evaluate ⟨limit + 3, echo⟩ (limit + 1) a t = .ok v t)
    (hb : ∀ t : State, t.environment = s.environment →
      evaluate ⟨limit + 3, echo⟩ (limit + 1) b t = .ok w t)
    (hlist : s.environment.get? "list" = some (.function (.primitive (.operation .list)))) :
    evaluate ⟨limit + 3, echo⟩ (limit + 2) (.expression [.atom (.symbol "list"), a, b]) s =
      .ok (.list [v, w]) (s.reported (.called "list" [v, w])) := by
  change (Run.lookup "list" >>= fun h => _ : Run Value) s = _
  rw [Run.andThen_apply, Run.lookup_apply, hlist]
  dsimp only
  rw [Run.andThen_apply, Run.mapM_cons_apply, ha s rfl]
  dsimp only
  rw [Run.mapM_cons_apply, hb s rfl]
  dsimp only
  rw [List.mapM_nil]
  change MiniLisp.call _ _ _ [v, w] s = _
  rw [call_operation]
  rfl

theorem evaluate_define {operand : Sexp} {v : Value} {t : State}
    (h : evaluate ⟨limit + 3, echo⟩ (limit + 2) operand (s.reported (.entered .define)) = .ok v t) :
    (endState (evaluate ⟨limit + 3, echo⟩ (limit + 3)
      (.expression [.atom (.symbol "define"), .atom (.symbol "x"), operand]) s)).environment =
      t.environment.define "x" v := by
  change (endState ((Run.report (.entered .define) >>= fun _ =>
    evaluateAssignment (evaluate ⟨limit + 3, echo⟩ (limit + 2)) .define
      [.atom (.symbol "x"), operand] : Run Value) s)).environment = _
  rw [Run.andThen_apply, Run.report_apply, evaluateAssignment_eq]
  dsimp only
  change (endState ((evaluate ⟨limit + 3, echo⟩ (limit + 2) operand >>= fun value => do
    assignAs .define "x" value
    return .none : Run Value) _)).environment = _
  rw [Run.andThen_apply, h]
  dsimp only
  rw [Run.andThen_apply, assignAs_apply]
  rfl

/-- The program that binds `x` to a list of these two values. -/
def listing (a b : Sexp) : Sexp :=
  .expression [.atom (.symbol "define"), .atom (.symbol "x"),
    .expression [.atom (.symbol "list"), a, b]]

theorem environment_evaluateText (session : Session) (hconfig : session.config = ⟨limit + 3, echo⟩)
    (hlist : session.environment.get? "list" = some (.function (.primitive (.operation .list))))
    {source : String} {a b : Sexp} {v w : Value} (hparse : parse source = .ok (listing a b))
    (ha : ∀ t : State, t.environment = session.environment →
      evaluate ⟨limit + 3, echo⟩ (limit + 1) a t = .ok v t)
    (hb : ∀ t : State, t.environment = session.environment →
      evaluate ⟨limit + 3, echo⟩ (limit + 1) b t = .ok w t) :
    (session.evaluateText source).2.environment =
      session.environment.define "x" (.list [v, w]) := by
  rw [Session.evaluateText_of_parse hparse, Session.environment, Session.state_run, hconfig,
    runProgram, Run.andThen_apply, Run.report_apply]
  have h := evaluate_list (s := (session.state.reported (.parsed (listing a b))).reported
    (.entered .define)) ha hb hlist
  exact (evaluate_define h).trans rfl

end Programs

/-- A session in which lists for `apply` can be made, and `x` is one. -/
structure Deepened (config : Config) (n : Nat) (session : Session) : Prop where
  reachable : session.Reachable
  config_eq : session.config = config
  list : session.environment.get? "list" = some (.function (.primitive (.operation .list)))
  apply : session.environment.get? "apply" = some (.function (.primitive .apply))
  x : session.environment.get? "x" = some (.list (handedOn n))

/-- Another list in the place of `x`, which leaves all else as it is. -/
theorem Deepened.of_define {config : Config} {n : Nat} (session : Session) {next : Session}
    (hlist : session.environment.get? "list" = some (.function (.primitive (.operation .list))))
    (happly : session.environment.get? "apply" = some (.function (.primitive .apply)))
    (hreachable : next.Reachable) (hconfig : next.config = config)
    (henvironment : next.environment = session.environment.define "x" (.list (handedOn n))) :
    Deepened config n next where
  reachable := hreachable
  config_eq := hconfig
  list := by rw [henvironment, Environment.get?_define, if_neg (by decide), hlist]
  apply := by rw [henvironment, Environment.get?_define, if_neg (by decide), happly]
  x := by rw [henvironment, Environment.get?_define, if_pos rfl]

theorem parse_first : parse "(define x (list list ()))" =
    .ok (listing (.atom (.symbol "list")) (.expression [])) := rfl

theorem parse_next : parse "(define x (list apply x))" =
    .ok (listing (.atom (.symbol "apply")) (.atom (.symbol "x"))) := rfl

theorem fresh_list :
    Environment.fresh.get? "list" = some (.function (.primitive (.operation .list))) := rfl

theorem fresh_apply : Environment.fresh.get? "apply" = some (.function (.primitive .apply)) := rfl

theorem evaluate_empty (limit : Nat) (echo : Bool) (t : State) :
    evaluate ⟨limit + 3, echo⟩ (limit + 1) (.expression []) t = .ok (.list []) t := rfl

/-- However long a list is to be handed on, programs of constant depth make it. -/
theorem exists_deepened (limit : Nat) (echo : Bool) (n : Nat) :
    ∃ session, Deepened ⟨limit + 3, echo⟩ n session := by
  induction n with
  | zero =>
    have henvironment := environment_evaluateText (.start ⟨limit + 3, echo⟩ .unlimited) rfl
      fresh_list parse_first
      (fun t ht => evaluate_symbol ((congrArg (·.get? "list") ht).trans fresh_list))
      (fun t _ => evaluate_empty limit echo t)
    exact ⟨_, .of_define (.start ⟨limit + 3, echo⟩ .unlimited) fresh_list fresh_apply
      (.evaluateText (.start _ _) _) (Session.config_evaluateText _ _) henvironment⟩
  | succ n ih =>
    obtain ⟨last, h⟩ := ih
    have henvironment := environment_evaluateText last h.config_eq h.list parse_next
      (fun t ht => evaluate_symbol ((congrArg (·.get? "apply") ht).trans h.apply))
      (fun t ht => evaluate_symbol ((congrArg (·.get? "x") ht).trans h.x))
    exact ⟨_, .of_define last h.list h.apply (.evaluateText h.reachable _)
      ((Session.config_evaluateText _ _).trans h.config_eq) henvironment⟩

/-- The program that hands `x` to `apply`, which hands it on. -/
def handing : Sexp :=
  .expression [.atom (.symbol "apply"), .atom (.symbol "apply"), .atom (.symbol "x")]

theorem parse_handing : parse "(apply apply x)" = .ok handing := rfl

/-- The arguments are evaluated and the first call begins. -/
theorem reaches_handing {limit n : Nat} {echo : Bool} (s : State)
    (happly : s.environment.get? "apply" = some (.function (.primitive .apply)))
    (hx : s.environment.get? "x" = some (.list (handedOn n))) :
    Reaches ⟨limit + 3, echo⟩ ⟨.evaluate handing, [], 0, s⟩
      ⟨.call (.primitive .apply) (handedOn (n + 1)), [.evaluation], 1, s⟩ := by
  have hsymbol {name : String} {v : Value} (h : s.environment.get? name = some v)
      (stack : List Frame) : Reaches ⟨limit + 3, echo⟩ ⟨.evaluate (.atom (.symbol name)), stack, 1, s⟩
        ⟨.returned v, stack, 1, s⟩ := by
    have hreaches := reaches_evaluate ⟨limit + 3, echo⟩ (.atom (.symbol name)) stack 1 s
    rwa [show limit + 3 - 1 = limit + 1 + 1 from rfl, evaluate_symbol h] at hreaches
  refine .step rfl ((hsymbol happly _).trans (.step rfl ?_))
  refine (hsymbol happly _).trans (.step rfl ?_)
  exact (hsymbol hx _).trans (.step rfl (.refl _))

/-- The value of the program is that of the first call. -/
theorem evaluate_handing {limit n : Nat} {echo : Bool} (s : State)
    (happly : s.environment.get? "apply" = some (.function (.primitive .apply)))
    (hx : s.environment.get? "x" = some (.list (handedOn n))) :
    evaluate ⟨limit + 3, echo⟩ (limit + 3) handing s =
      MiniLisp.call ⟨limit + 3, echo⟩ (evaluate ⟨limit + 3, echo⟩ (limit + 2)) (.primitive .apply)
        (handedOn (n + 1)) s := by
  change (evaluate _ (limit + 2) (.atom (.symbol "apply")) >>= fun v => _ : Run Value) s = _
  rw [Run.andThen_apply, evaluate_symbol happly]
  dsimp only
  rw [Run.andThen_apply, Run.mapM_cons_apply, evaluate_symbol happly]
  dsimp only
  rw [Run.mapM_cons_apply, evaluate_symbol hx]
  rfl

/-- Under any limit that leaves room for three nested evaluations there is, for any bound, a session
and a program that has more calls open at once, and that comes to its value without an overflow. -/
theorem exists_called (limit bound : Nat) : ∃ s : Session, s.Reachable ∧
    s.config.maxDepth = limit + 3 ∧ ∃ tree, parse "(apply apply x)" = .ok tree ∧
      (∃ count, bound < called (run s.config
        ⟨.evaluate tree, [], 0, s.state.reported (.parsed tree)⟩ count).stack) ∧
      (s.evaluateText "(apply apply x)").1 = .ok (.list []) := by
  obtain ⟨session, h⟩ := exists_deepened limit true bound
  refine ⟨session, h.reachable, congrArg Config.maxDepth h.config_eq, handing, parse_handing, ?_, ?_⟩
  · obtain ⟨m, hm, hcalled⟩ := reaches_handedOn ⟨limit + 3, true⟩ (bound + 1) [.evaluation] 1
      (session.state.reported (.parsed handing))
    have hstart := (reaches_handing (session.state.reported (.parsed handing)) h.apply h.x).trans hm
    obtain ⟨count, hcount⟩ := hstart.exists_run
    refine ⟨count, ?_⟩
    rw [h.config_eq, hcount, hcalled]
    change bound < 0 + (bound + 1) + 1
    omega
  · obtain ⟨t, ht⟩ := call_handedOn ⟨limit + 3, true⟩ (evaluate ⟨limit + 3, true⟩ (limit + 2))
      (bound + 1) (session.state.reported (.parsed handing))
    have hvalue := (evaluate_handing (session.state.reported (.parsed handing)) h.apply h.x).trans ht
    have hrun : runProgram session.config handing session.state = .ok (.list []) t := by
      rw [h.config_eq, runProgram, Run.andThen_apply, Run.report_apply]
      exact hvalue
    rw [Session.evaluateText_of_parse parse_handing, Session.run_of_ok hrun]

/-- **Open calls are not bounded by the limit alone.** -/
theorem calls_unbounded : ¬ ∃ bound : Nat → Nat, ∀ s : Session, s.Reachable →
    ∀ source tree, parse source = .ok tree → ∀ count,
      called (run s.config ⟨.evaluate tree, [], 0, s.state.reported (.parsed tree)⟩ count).stack ≤
        bound s.config.maxDepth := by
  rintro ⟨bound, hbound⟩
  obtain ⟨s, hreachable, hlimit, tree, hparse, ⟨count, hcount⟩, -⟩ := exists_called 0 (bound 3)
  have hle := hbound s hreachable _ tree hparse count
  rw [hlimit] at hle
  exact Nat.not_lt_of_ge hle hcount

end Machine

end MiniLisp

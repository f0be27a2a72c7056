import MiniLisp.Proofs.Machine.Bounds
import MiniLisp.Proofs.Session.Steps

/-!
# The machine in a session

A session does not keep the count of open evaluations, because there is nothing to keep: every
evaluation and every call gives back the count that it finds. Here it is kept. A `Host` is a session
with a count, and what it does is run on the machine, which is handed the count and hands it back.
From a new session on, the count is zero between any two operations, so that each has the whole
limit, and the host does what the session does (`Host.after_iff`).
-/

namespace MiniLisp

/-- What a machine that has ended answers. -/
def Machine.answer? (m : Machine) : Option (Except Fault Value) :=
  match m.control, m.stack with
  | .returned v, [] => some (.ok v)
  | .failed e, [] => some (.error e)
  | _, _ => none

/-- A session, and the count of open evaluations that the machine has left. -/
structure Host where
  session : Session
  depth : Nat

namespace Host

open Session (Step)

/-- The host after the machine has ended. -/
def leave (h : Host) (m : Machine) : Host :=
  ⟨⟨h.session.config, m.state⟩, m.depth⟩

/-- What a host does: its answer, if it has one, and the host after it. The evaluation of a program
and a reset begin to count anew, a direct call takes the count as it is. -/
inductive Performs (h : Host) : Step → Option (Except Fault Value) → Host → Prop
  | unreadable {source : String} {fault : ReadFault} (hparse : parse source = .error fault) :
    Performs h (.evaluateText source) (some (.error (.unreadable fault))) h
  | evaluateText {source : String} {tree : Sexp} {m : Machine} {answer : Except Fault Value}
    (hparse : parse source = .ok tree)
    (hrun : Machine.Reaches h.session.config
      ⟨.evaluate tree, [], 0, h.session.state.reported (.parsed tree)⟩ m)
    (hanswer : m.answer? = some answer) :
    Performs h (.evaluateText source) (some answer) (h.leave m)
  | evaluateTree {tree : Sexp} {m : Machine} {answer : Except Fault Value}
    (hrun : Machine.Reaches h.session.config ⟨.evaluate tree, [], 0, h.session.state⟩ m)
    (hanswer : m.answer? = some answer) :
    Performs h (.evaluateTree tree) (some answer) (h.leave m)
  | call {f : Procedure} {args : List Value} {m : Machine} {answer : Except Fault Value}
    (hrun : Machine.Reaches h.session.config ⟨.call f args, [], h.depth, h.session.state⟩ m)
    (hanswer : m.answer? = some answer) :
    Performs h (.call f args) (some answer) (h.leave m)
  | reset : Performs h .reset none ⟨h.session.reset, 0⟩

/-- A host after a series of steps. -/
inductive After : Host → List Step → Host → Prop
  | nil (h : Host) : After h [] h
  | cons {h next last : Host} {step : Step} {steps : List Step}
    {answer : Option (Except Fault Value)} (hstep : h.Performs step answer next)
    (hsteps : After next steps last) : After h (step :: steps) last

/-! ## Runs of the machine -/

/-- A machine that answers has no step left. -/
theorem step_of_answer {config : Config} {m : Machine} {answer : Except Fault Value}
    (h : m.answer? = some answer) : m.step config = none := by
  obtain ⟨control, stack, depth, s⟩ := m
  cases control with
  | evaluate | call => cases h
  | returned | failed =>
    cases stack with
    | nil => rfl
    | cons => cases h

/-- The machine that has ended a run answers what a session does that has run it. -/
theorem answer_ended (session : Session) (x : Run Value) (depth : Nat) :
    let m := Machine.ended (x session.state) [] depth
    m.answer? = some (session.run x).1 ∧ ⟨session.config, m.state⟩ = (session.run x).2 ∧
      m.depth = depth := by
  cases hr : x session.state with
  | ok v t =>
    rw [Session.run_of_ok hr]
    exact ⟨rfl, rfl, rfl⟩
  | error e t =>
    rw [Session.run_of_error hr]
    exact ⟨rfl, rfl, rfl⟩

/-- A run of the machine that begins with nothing on the stack answers what the evaluator gives, and
gives back the count. -/
theorem exists_machine (h : Host) (control : Control) (depth : Nat) {s : State} {x : Run Value}
    (hx : x h.session.state = Machine.outcome h.session.config depth control s) :
    ∃ m, Machine.Reaches h.session.config ⟨control, [], depth, s⟩ m ∧
      m.answer? = some (h.session.run x).1 ∧ h.leave m = ⟨(h.session.run x).2, depth⟩ := by
  have hlast := Machine.reaches_outcome h.session.config control depth s
  rw [← hx] at hlast
  obtain ⟨hanswer, hsession, hdepth⟩ := answer_ended h.session x depth
  exact ⟨_, hlast, hanswer, by rw [leave, hsession, hdepth]⟩

/-- There is no other answer. -/
theorem run_of_answer (h : Host) {control : Control} {depth : Nat} {s : State} {x : Run Value}
    (hx : x h.session.state = Machine.outcome h.session.config depth control s) {m : Machine}
    (hm : Machine.Reaches h.session.config ⟨control, [], depth, s⟩ m)
    {answer : Except Fault Value} (hanswer : m.answer? = some answer) :
    h.session.run x = (answer, (h.leave m).session) ∧ m.depth = depth := by
  have hlast := Machine.reaches_outcome h.session.config control depth s
  have hend := Machine.step_ended h.session.config
    (Machine.outcome h.session.config depth control s) depth
  rw [← hx] at hlast hend
  obtain ⟨hended, hsession, hdepth⟩ := answer_ended h.session x depth
  obtain rfl := (hm.to_end hlast hend).eq_of_step_eq_none (step_of_answer hanswer)
  exact ⟨Prod.ext (Option.some.inj (hended.symm.trans hanswer)) hsession.symm, hdepth⟩

/-! ## Steps -/

theorem runProgram_eq_outcome (h : Host) (tree : Sexp) :
    runProgram h.session.config tree h.session.state =
      Machine.outcome h.session.config 0 (.evaluate tree)
        (h.session.state.reported (.parsed tree)) := by
  rw [runProgram, Run.andThen_apply, Run.report_apply]
  rfl

/-- A host that has no evaluations open can do each step, with the answer of its session, and has
none open after it. -/
theorem performs_perform {h : Host} (hdepth : h.depth = 0) (step : Step) :
    h.Performs step (h.session.perform step).1 ⟨(h.session.perform step).2, 0⟩ := by
  cases step with
  | evaluateText source =>
    cases hparse : parse source with
    | error fault =>
      rw [Session.perform, Session.evaluateText, hparse, ← hdepth]
      exact .unreadable hparse
    | ok tree =>
      obtain ⟨m, hm, hanswer, hnext⟩ :=
        h.exists_machine (.evaluate tree) 0 (h.runProgram_eq_outcome tree)
      rw [Session.perform, Session.evaluateText_of_parse hparse, ← hnext]
      exact .evaluateText hparse hm hanswer
  | evaluateTree tree =>
    obtain ⟨m, hm, hanswer, hnext⟩ := h.exists_machine (.evaluate tree) 0
      (x := evaluate h.session.config h.session.config.maxDepth tree) rfl
    rw [Session.perform, Session.evaluateTree, ← hnext]
    exact .evaluateTree hm hanswer
  | call f args =>
    obtain ⟨m, hm, hanswer, hnext⟩ := h.exists_machine (.call f args) 0
      (x := MiniLisp.call h.session.config
        (evaluate h.session.config h.session.config.maxDepth) f args) rfl
    rw [Session.perform, Session.call, ← hnext]
    rw [← hdepth] at hm
    exact .call hm hanswer
  | reset => exact .reset

theorem perform_of_performs {h next : Host} (hdepth : h.depth = 0) {step : Step}
    {answer : Option (Except Fault Value)} (hperforms : h.Performs step answer next) :
    h.session.perform step = (answer, next.session) ∧ next.depth = 0 := by
  cases hperforms with
  | unreadable hparse =>
    rw [Session.perform, Session.evaluateText, hparse]
    exact ⟨rfl, hdepth⟩
  | evaluateText hparse hm hanswer =>
    obtain ⟨hrun, hnext⟩ := h.run_of_answer (h.runProgram_eq_outcome _) hm hanswer
    rw [Session.perform, Session.evaluateText_of_parse hparse, hrun]
    exact ⟨rfl, hnext⟩
  | @evaluateTree tree _ _ hm hanswer =>
    obtain ⟨hrun, hnext⟩ := h.run_of_answer
      (x := evaluate h.session.config h.session.config.maxDepth tree) rfl hm hanswer
    rw [Session.perform, Session.evaluateTree, hrun]
    exact ⟨rfl, hnext⟩
  | @call f args _ _ hm hanswer =>
    rw [hdepth] at hm
    obtain ⟨hrun, hnext⟩ := h.run_of_answer
      (x := MiniLisp.call h.session.config
        (evaluate h.session.config h.session.config.maxDepth) f args) rfl hm hanswer
    rw [Session.perform, Session.call, hrun]
    exact ⟨rfl, hnext⟩
  | reset => exact ⟨rfl, rfl⟩

/-- **Between two operations nothing is open.** A host does what its session does, and has no
evaluations open after it if it had none before. -/
theorem performs_iff {h : Host} (hdepth : h.depth = 0) {step : Step}
    {answer : Option (Except Fault Value)} {next : Host} :
    h.Performs step answer next ↔ h.session.perform step = (answer, next.session) ∧
      next.depth = 0 := by
  constructor
  · exact perform_of_performs hdepth
  · rintro ⟨hpair, hnext⟩
    obtain ⟨session, _⟩ := next
    obtain rfl : (h.session.perform step).1 = answer := congrArg Prod.fst hpair
    obtain rfl : (h.session.perform step).2 = session := congrArg Prod.snd hpair
    obtain rfl := hnext
    exact performs_perform hdepth step

/-- **A host does what its session does**, over any series of steps. -/
theorem after_iff {h : Host} (hdepth : h.depth = 0) {steps : List Step} {last : Host} :
    h.After steps last ↔ last.session = h.session.after steps ∧ last.depth = 0 := by
  induction steps generalizing h with
  | nil =>
    constructor
    · intro hafter
      cases hafter
      exact ⟨rfl, hdepth⟩
    · rintro ⟨hsession, hlast⟩
      obtain rfl : last = h := by
        obtain ⟨session, _⟩ := last
        obtain ⟨session', _⟩ := h
        obtain rfl : session = session' := hsession
        obtain rfl := hlast.trans hdepth.symm
        rfl
      exact .nil last
  | cons step steps ih =>
    constructor
    · intro hafter
      cases hafter with
      | cons hstep hsteps =>
        obtain ⟨hpair, hnext⟩ := (performs_iff hdepth).1 hstep
        rw [Session.after_cons, hpair]
        exact (ih hnext).1 hsteps
    · intro hlast
      have hstep : h.Performs step (h.session.perform step).1 ⟨(h.session.perform step).2, 0⟩ :=
        (performs_iff hdepth).2 ⟨rfl, rfl⟩
      exact .cons hstep ((ih rfl).2 hlast)

end Host

end MiniLisp

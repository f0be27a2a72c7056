import MiniLisp.Proofs.Session.Steps

/-!
# The output is write-only

Nothing that a session computes depends on whether printed lines are written. A session that writes
them to a sink which takes everything and one that writes none give the same answers, step by step,
and have the same bindings and the same journal (`Session.perform_withOutput`). The first one has
written the messages of `println` in its journal, a line each, and the second one nothing, whatever
its sink would do.
-/

namespace MiniLisp

/-! ## Runs that write and runs that do not -/

/-- The two states differ in their outputs only, of which the first one takes everything. -/
structure State.Muted (s t : State) : Prop where
  environment : t.environment = s.environment
  journal : t.journal = s.journal
  declarations : t.declarations = s.declarations
  sink : s.output.sink = .unlimited

namespace State.Muted

variable {s t : State}

theorem reported (h : Muted s t) (e : Event) : Muted (s.reported e) (t.reported e) :=
  { h with journal := congrArg (·.push e) h.journal }

theorem define (h : Muted s t) (name : String) (value : Value) :
    Muted { s with environment := s.environment.define name value }
      { t with environment := t.environment.define name value } :=
  { h with environment := congrArg (·.define name value) h.environment }

theorem withDeclarations (h : Muted s t) (count : Nat) :
    Muted { s with declarations := count } { t with declarations := count } :=
  { h with declarations := rfl }

theorem writeLine (h : Muted s t) (line : String) :
    Muted { s with output := s.output.writeLine line } t :=
  { h with sink := by rw [Output.writeLine, h.sink]; rfl }

end State.Muted

namespace Simulation

/-- Runs on the same trees and values of which only the first one writes lines, and does not fail to
do so. -/
def muted : Simulation :=
  same State.Muted (fun _ => True) (fun _ => True) (fun e f => e = f ∧ ∀ x, e ≠ .output x)
    fun _ _ _ => False

theorem muted_steps : StepLaws State.Muted (fun _ => True) (fun _ => True) where
  atom _ _ := True.intro
  found h _ := ⟨by rw [h.environment], fun _ _ => True.intro⟩
  reported h _ := h.reported _
  bound h _ _ := (h.reported _).define _ _
  declarations h := h.declarations
  procedure _ _ _ _ := True.intro
  counted h := h.withDeclarations _

theorem printLine_muted (limit limit' : Nat) (line : String) :
    muted.Runs (fun _ _ => True) (Run.printLine ⟨limit, true⟩ line)
      (Run.printLine ⟨limit', false⟩ line) := by
  intro s t h
  have hfault : s.output.fault? line = none := by
    rw [Output.fault?, h.sink]
    rfl
  rw [Run.printLine_apply, Run.printLine_apply, hfault]
  exact .returned True.intro ((h.reported _).writeLine line)

theorem muted_laws (limit : Nat) :
    SameLaws State.Muted (fun _ => True) (fun _ => True)
      (fun e f => e = f ∧ ∀ x, e ≠ .output x) (fun _ _ _ => False) ⟨limit, true⟩
      ⟨limit, false⟩ :=
  muted_steps.sameLaws (fun h _ => h) (fun _ => ⟨rfl, fun x h => by cases h⟩)
    (fun _ => ⟨rfl, fun x h => by cases h⟩)
    (fun _ => muted_steps.evaluateAtom (fun _ => ⟨rfl, fun x h => by cases h⟩) True.intro)
    (printLine_muted limit limit)

variable (limit : Nat)

theorem evaluate_muted (budget : Nat) (tree : Sexp) :
    muted.Runs (fun v w => True ∧ v = w) (evaluate ⟨limit, true⟩ budget tree)
      (evaluate ⟨limit, false⟩ budget tree) :=
  (muted_laws limit).lawful.evaluate 0
    (fun _ _ _ => .throw ⟨rfl, fun x h => by cases h⟩) budget ⟨True.intro, rfl⟩

theorem call_muted (budget : Nat) (f : Procedure) (args : List Value) :
    muted.Runs (fun v w => True ∧ v = w)
      (call ⟨limit, true⟩ (evaluate ⟨limit, true⟩ budget) f args)
      (call ⟨limit, false⟩ (evaluate ⟨limit, false⟩ budget) f args) := by
  refine (muted_laws limit).lawful.call (fun t u htu => ?_) (evaluate_grows _ budget)
    ⟨True.intro, rfl⟩ (forall₂_and_eq_iff.2 ⟨fun _ _ => True.intro, rfl⟩)
  obtain ⟨-, rfl⟩ := htu
  exact evaluate_muted limit budget t

theorem runProgram_muted (tree : Sexp) :
    muted.Runs (fun v w => True ∧ v = w) (runProgram ⟨limit, true⟩ tree)
      (runProgram ⟨limit, false⟩ tree) :=
  (muted_laws limit).runProgram muted_steps rfl ⟨rfl, fun x h => by cases h⟩ True.intro

end Simulation

/-! ## Sessions -/

namespace Session

/-- Two sessions that differ in their outputs, of which only the first one writes. -/
structure Muted (limit : Nat) (s t : Session) : Prop where
  loud : s.config = ⟨limit, true⟩
  quiet : t.config = ⟨limit, false⟩
  state : State.Muted s.state t.state

variable {limit : Nat} {s t : Session}

/-- What is run in both sessions has the same result, which is no failure to write. -/
theorem Muted.run (h : Muted limit s t) {x y : Run Value}
    (hxy : Simulation.muted.Runs (fun v w => True ∧ v = w) x y) :
    (t.run y).1 = (s.run x).1 ∧ (∀ fault, (s.run x).1 ≠ .error (.output fault)) ∧
      Muted limit (s.run x).2 (t.run y).2 := by
  obtain ⟨hanswer, -, hfault, hstate⟩ := hxy.answers id id h.state
  exact ⟨hanswer, fun fault hf => hfault _ hf fault rfl, (config_run s x).trans h.loud,
    (config_run t y).trans h.quiet, hstate⟩

theorem Muted.evaluateText (h : Muted limit s t) (source : String) :
    (t.evaluateText source).1 = (s.evaluateText source).1 ∧
      (∀ fault, (s.evaluateText source).1 ≠ .error (.output fault)) ∧
      Muted limit (s.evaluateText source).2 (t.evaluateText source).2 := by
  cases hparse : parse source with
  | error fault =>
    rw [Session.evaluateText, Session.evaluateText, hparse]
    exact ⟨rfl, fun fault hf => (by cases hf), h⟩
  | ok tree =>
    rw [evaluateText_of_parse hparse, evaluateText_of_parse hparse, h.loud, h.quiet]
    exact h.run (Simulation.runProgram_muted limit tree)

theorem Muted.perform (h : Muted limit s t) (step : Step) :
    (t.perform step).1 = (s.perform step).1 ∧
      (∀ fault, (s.perform step).1 ≠ some (.error (.output fault))) ∧
      Muted limit (s.perform step).2 (t.perform step).2 := by
  -- an answer is the result of a run, of which the lemmas above speak
  have answered : ∀ {x y : Except Fault Value × Session}, y.1 = x.1 ∧
      (∀ fault, x.1 ≠ .error (.output fault)) ∧ Muted limit x.2 y.2 → some y.1 = some x.1 ∧
        (∀ fault, some x.1 ≠ some (.error (.output fault))) ∧ Muted limit x.2 y.2 :=
    fun ⟨hresult, hfault, hst⟩ =>
      ⟨congrArg some hresult, fun fault hf => hfault fault (Option.some.inj hf), hst⟩
  cases step with
  | evaluateText source => exact answered (h.evaluateText source)
  | evaluateTree tree =>
    refine answered (x := s.evaluateTree tree) (y := t.evaluateTree tree) ?_
    rw [evaluateTree, evaluateTree, h.loud, h.quiet]
    exact h.run (Simulation.evaluate_muted limit limit tree)
  | call f args =>
    refine answered (x := s.call f args) (y := t.call f args) ?_
    rw [call, call, h.loud, h.quiet]
    exact h.run (Simulation.call_muted limit limit f args)
  | reset =>
    exact ⟨rfl, fun fault hf => (by cases hf), h.loud, h.quiet, { h.state with environment := rfl }⟩

theorem Muted.after (h : Muted limit s t) (steps : List Step) :
    Muted limit (s.after steps) (t.after steps) := by
  induction steps generalizing s t with
  | nil => exact h
  | cons step steps ih => exact ih (h.perform step).2.2

/-- **The output is write-only.** At every step of a session it makes no difference to the answer,
to the bindings and to the journal whether lines are written to a sink that takes everything or not
written at all. Where they are, the bytes written are the messages of `println` in the journal, each
with a line feed; where they are not, nothing is written and no step fails to write. -/
theorem perform_withOutput (s : Session) (sink : Sink) (past : List Step) (step : Step) :
    let loud := ((s.withOutput true .unlimited).after past).perform step
    let quiet := ((s.withOutput false sink).after past).perform step
    quiet.1 = loud.1 ∧ quiet.2.environment = loud.2.environment ∧
      quiet.2.state.journal = loud.2.state.journal ∧
      (∃ events, loud.2.state.journal.toList = s.state.journal.toList ++ events ∧
        loud.2.state.output.written = s.state.output.written ++ echoes events) ∧
      quiet.2.state.output = ⟨sink, s.state.output.written⟩ ∧
      ∀ fault, quiet.1 ≠ some (.error (.output fault)) := by
  intro loud quiet
  have hstart : Muted s.config.maxDepth (s.withOutput true .unlimited) (s.withOutput false sink) :=
    ⟨rfl, rfl, rfl, rfl, rfl, rfl⟩
  obtain ⟨hanswer, hfault, hsessions⟩ := (hstart.after past).perform step
  have hloud : (s.withOutput true .unlimited).after (past ++ [step]) = loud.2 := after_append _ _ _
  have hquiet : (s.withOutput false sink).after (past ++ [step]) = quiet.2 := after_append _ _ _
  obtain ⟨events, hevents⟩ := (s.withOutput true .unlimited).after_journaled (past ++ [step])
  obtain ⟨_, hsilent⟩ := (s.withOutput false sink).after_journaled (past ++ [step])
  rw [hloud] at hevents
  rw [hquiet] at hsilent
  have hwritten : loud.2.state.output = ⟨.unlimited, s.state.output.written ++ echoes events⟩ :=
    hevents.output.trans (Output.after_eq .unlimited _)
  refine ⟨hanswer, hsessions.state.environment, hsessions.state.journal,
    ⟨events, hevents.journal, congrArg Output.written hwritten⟩, hsilent.output, fun fault hf => ?_⟩
  exact hfault fault (hanswer.symm.trans hf)

end Session

end MiniLisp

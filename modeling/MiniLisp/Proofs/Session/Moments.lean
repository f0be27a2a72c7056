import MiniLisp.Proofs.Machine.Bounds
import MiniLisp.Proofs.Machine.Printing

/-!
# The moments of a program

A session that evaluates a program runs the machine on its tree. The moments of the program are the
machines on the way, up to the last one, which has the answer of the session and its state
(`Session.exists_last_moment`). What the program prints is what calls of `println` print at its
moments (`Session.printed_moment`).
-/

namespace MiniLisp

namespace Session

/-- A moment in the evaluation of a program that the session has read. -/
def moment (s : Session) (tree : Sexp) (count : Nat) : Machine :=
  Machine.run s.config ⟨.evaluate tree, [], 0, s.state.reported (.parsed tree)⟩ count

variable {s : Session} {source : String} {tree : Sexp}

/-- The last moment, in which the machine has the answer. -/
theorem exists_last_moment (s : Session) (hparse : parse source = .ok tree) :
    ∃ last, (∀ count, s.moment tree (last + count) = s.moment tree last) ∧
      (s.moment tree last).state = (s.evaluateText source).2.state ∧
      ∀ v, (s.evaluateText source).1 = .ok v → (s.moment tree last).control = .returned v := by
  obtain ⟨last, hlast⟩ := (Machine.reaches_evaluate s.config tree [] 0
    (s.state.reported (.parsed tree))).exists_run
  have hend := Machine.step_ended s.config
    (evaluate s.config s.config.maxDepth tree (s.state.reported (.parsed tree))) 0
  rw [Session.evaluateText_of_parse hparse]
  have hrun : runProgram s.config tree s.state =
      evaluate s.config s.config.maxDepth tree (s.state.reported (.parsed tree)) := by
    rw [runProgram, Run.andThen_apply, Run.report_apply]
  refine ⟨last, fun count => ?_, ?_, fun v hv => ?_⟩
  · rw [moment, moment, Machine.run_add, hlast]
    exact Machine.run_of_step_eq_none hend count
  · rw [moment, hlast, state_run, hrun]
    cases evaluate s.config s.config.maxDepth tree (s.state.reported (.parsed tree)) <;> rfl
  · rw [moment, hlast]
    cases h : evaluate s.config s.config.maxDepth tree (s.state.reported (.parsed tree)) with
    | ok w t =>
      rw [run_of_ok (hrun.trans h)] at hv
      obtain rfl := Except.ok.inj hv
      rfl
    | error e t =>
      rw [run_of_error (hrun.trans h)] at hv
      cases hv

/-- The lines that calls of `println` which succeed print before some moment of a program. -/
def printedBefore (s : Session) (tree : Sexp) (count : Nat) : List String :=
  (List.range count).filterMap fun i => (s.moment tree i).printing? s.config

/-- **What a program prints** to a sink that takes everything is what calls of `println` print. -/
theorem printed_moment (hsink : s.state.output.sink = .unlimited) (tree : Sexp) (count : Nat) :
    State.Printed s.state (s.moment tree count).state (s.printedBefore tree count) := by
  have hread := State.Printed.reported s.state (.parsed tree)
  have hrun := Machine.run_printed s.config
    (m := ⟨.evaluate tree, [], 0, s.state.reported (.parsed tree)⟩) hsink count
  exact hread.trans hrun

end Session

end MiniLisp

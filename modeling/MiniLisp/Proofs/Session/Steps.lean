import MiniLisp.Proofs.Run.Record

/-!
# Steps of a session

What a host can do with a session, one step after another. The journal and the output of a session
outlive a reset, so what a whole series of steps writes can be read off the events that it adds to
the journal (`Session.after_recorded`).
-/

namespace MiniLisp

namespace Session

/-- What a host does with a session. -/
inductive Step where
  | evaluateText (source : String)
  | evaluateTree (tree : Sexp)
  | call (f : Procedure) (args : List Value)
  | reset

/-- The answer to a step, if it has one, and the session after it. -/
def perform (s : Session) : Step → Option (Except Fault Value) × Session
  | .evaluateText source => (some (s.evaluateText source).1, (s.evaluateText source).2)
  | .evaluateTree tree => (some (s.evaluateTree tree).1, (s.evaluateTree tree).2)
  | .call f args => (some (s.call f args).1, (s.call f args).2)
  | .reset => (none, s.reset)

/-- The session after some steps. -/
def after (s : Session) (steps : List Step) : Session :=
  steps.foldl (fun s step => (s.perform step).2) s

theorem after_cons (s : Session) (step : Step) (steps : List Step) :
    s.after (step :: steps) = (s.perform step).2.after steps := rfl

theorem after_append (s : Session) (steps more : List Step) :
    s.after (steps ++ more) = (s.after steps).after more :=
  List.foldl_append

/-- The same session with another sink, to which lines are written or not. -/
def withOutput (s : Session) (echo : Bool) (sink : Sink) : Session where
  config := { s.config with echo }
  state := { s.state with output := { s.state.output with sink } }

/-! ## What a step leaves alone -/

theorem config_evaluateText (s : Session) (source : String) :
    (s.evaluateText source).2.config = s.config := by
  unfold evaluateText
  split
  · rfl
  · exact config_run s _

theorem perform_config (s : Session) (step : Step) : (s.perform step).2.config = s.config := by
  cases step with
  | evaluateText source => exact config_evaluateText s source
  | evaluateTree tree => exact config_run s _
  | call f args => exact config_run s _
  | reset => rfl

theorem after_config (s : Session) (steps : List Step) : (s.after steps).config = s.config := by
  induction steps generalizing s with
  | nil => rfl
  | cons step steps ih => rw [after_cons, ih, perform_config]

/-! ## What steps write -/

theorem perform_journaled (s : Session) (step : Step) :
    ∃ events, State.Journaled s.config.echo s.state events (s.perform step).2.state := by
  cases step with
  | evaluateText source =>
    change ∃ events, State.Journaled _ _ events (s.evaluateText source).2.state
    cases hparse : parse source with
    | error fault =>
      rw [evaluateText, hparse]
      exact ⟨[], .refl _ _⟩
    | ok tree =>
      obtain ⟨events, h⟩ := runProgram_recorded s.config s.state tree
      rw [evaluateText_of_parse hparse, state_run]
      exact ⟨events, h.toJournaled⟩
  | evaluateTree tree =>
    obtain ⟨events, h⟩ := evaluate_recorded s.config s.state s.config.maxDepth tree
    refine ⟨events, ?_⟩
    change State.Journaled _ _ events (s.evaluateTree tree).2.state
    rw [evaluateTree, state_run]
    exact h.toJournaled
  | call f args =>
    obtain ⟨events, h⟩ := call_recorded s.config s.state s.config.maxDepth f args
    refine ⟨events, ?_⟩
    change State.Journaled _ _ events (s.call f args).2.state
    rw [call, state_run]
    exact h.toJournaled
  | reset => exact ⟨[], (List.append_nil _).symm, (State.Journaled.refl _ s.state).output⟩

/-- **What is written is what was printed**, over any series of steps. -/
theorem after_journaled (s : Session) (steps : List Step) :
    ∃ events, State.Journaled s.config.echo s.state events (s.after steps).state := by
  induction steps generalizing s with
  | nil => exact ⟨[], .refl _ _⟩
  | cons step steps ih =>
    obtain ⟨events, h⟩ := s.perform_journaled step
    obtain ⟨more, h'⟩ := ih (s.perform step).2
    rw [perform_config] at h'
    exact ⟨events ++ more, h.trans h'⟩

end Session

end MiniLisp

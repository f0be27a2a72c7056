import MiniLisp.Evaluator
import MiniLisp.Reader

/-!
# Sessions

A session evaluates one program after another. What they bind stays bound for those after them,
until the session is reset.
-/

namespace MiniLisp

/-- The settings of a series of programs and what they have done so far. -/
structure Session where
  config : Config
  state : State

namespace Session

/-- A session in which nothing has been evaluated. -/
def start (config : Config) (sink : Sink) : Session :=
  ⟨config, ⟨.fresh, #[], .start sink, 0⟩⟩

def environment (s : Session) : Environment :=
  s.state.environment

def run (s : Session) (action : Run α) : Except Fault α × Session :=
  match action.run s.state with
  | .ok a state => (.ok a, ⟨s.config, state⟩)
  | .error fault state => (.error fault, ⟨s.config, state⟩)

/-- Evaluates a tree with the whole budget. -/
def evaluateTree (s : Session) (tree : Sexp) : Except Fault Value × Session :=
  s.run (evaluate s.config s.config.maxDepth tree)

/-- Reads a program text and evaluates it. -/
def evaluateText (s : Session) (source : String) : Except Fault Value × Session :=
  match parse source with
  | .error fault => (.error (.unreadable fault), s)
  | .ok tree => s.run do
    Run.report (.parsed tree)
    evaluate s.config s.config.maxDepth tree

/-- Calls a procedure with argument values; the call has the whole budget. -/
def call (s : Session) (f : Procedure) (args : List Value) : Except Fault Value × Session :=
  s.run (MiniLisp.call s.config (evaluate s.config s.config.maxDepth) f args)

/-- Takes the session back to a fresh environment. -/
def reset (s : Session) : Session :=
  { s with state := { s.state with environment := .fresh } }

/-- Forgets the events and the bytes written so far; the sink stays as it is. -/
def clearRecords (s : Session) : Session :=
  { s with state := { s.state with
      journal := #[]
      output := .start s.state.output.sink } }

end Session

/-- Evaluates a program text on its own, with the standard settings. -/
def evaluateText (source : String) : Except Fault Value :=
  ((Session.start .standard .unlimited).evaluateText source).1

end MiniLisp

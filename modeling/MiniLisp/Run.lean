import MiniLisp.Config
import MiniLisp.Environment
import MiniLisp.Event
import MiniLisp.Output

/-!
# Runs

The effects of an evaluation. A run changes a state, and what it has changed stays changed when it
stops with a fault: there is no undoing.
-/

namespace MiniLisp

/-- What a run can change. -/
structure State where
  environment : Environment
  /-- The events so far. -/
  journal : Array Event
  output : Output
  /-- How many procedures have been declared so far; the next one gets this number. -/
  declarations : Nat

/-- A computation that changes a state and gives a value or stops with a fault. -/
abbrev Run := EStateM Fault State

namespace Run

def report (e : Event) : Run Unit :=
  modify fun s => { s with journal := s.journal.push e }

/-- Gives the result of a computation without effects. -/
def ofExcept (r : Except Misuse α) : Run α :=
  match r with
  | .ok a => pure a
  | .error misuse => throw (.misuse misuse)

def lookup (name : String) : Run Value := do
  match (← get).environment.get? name with
  | some v => pure v
  | none => throw (.undefined name)

def bind (name : String) (value : Value) : Run Unit := do
  report (.bound name value)
  modify fun s => { s with environment := s.environment.define name value }

/-- Makes a procedure, unequal to all that were made before. -/
def declare (name : String) (parameters : List String) (template : Sexp) : Run Procedure := do
  let id := (← get).declarations
  modify fun s => { s with declarations := s.declarations + 1 }
  return .declared id name parameters template

/-- Prints a line: reports it and, unless the configuration says otherwise, writes it. -/
def printLine (config : Config) (line : String) : Run Unit := do
  report (.printed line)
  if config.echo then
    let fault? := (← get).output.fault? line
    modify fun s => { s with output := s.output.writeLine line }
    match fault? with
    | none => pure ()
    | some fault => throw (.output fault)

end Run

end MiniLisp

import MiniLisp.Fault

/-!
# Events

What an evaluation reports while it runs. The journal of a run is the list of its events; each
can be shown as a log line.
-/

namespace MiniLisp

/-- Something that happened during a run. -/
inductive Event where
  /-- A text was read. -/
  | parsed (tree : Sexp)
  | entered (form : Form)
  /-- The operand of `define` or `set` has a value and its name is about to be bound. -/
  | assigned (form : Form) (name : String)
  /-- A procedure was made and its name is about to be bound. -/
  | declared (name : String) (parameters : List String) (template : Sexp)
  | bound (name : String) (value : Value)
  /-- A procedure was called with these arguments. -/
  | called (name : String) (arguments : List Value)
  /-- A line was printed, whether or not it reached the output. -/
  | printed (line : String)

namespace Event

def level : Event → String
  | .entered _ | .called .. => "TRACE"
  | .parsed _ | .assigned .. | .declared .. | .bound .. => "DEBUG"
  | .printed _ => "INFO"

/-- The part of the system that an event comes from. -/
def target : Event → String
  | .parsed _ => "attolisp::parser"
  | .entered _ | .assigned .. | .declared .. => "attolisp::interpreter"
  | .bound .. => "attolisp::environment"
  | .called .. => "attolisp::value"
  | .printed _ => "attolisp::println"

def message : Event → String
  | .parsed tree => s!"parsed {tree.text}"
  | .entered form => s!"special form {form.name}"
  | .assigned form name => s!"{form.name} {name}"
  | .declared name parameters template =>
    let formals := " ".intercalate parameters
    s!"function {name} ({formals}) = {template.text}"
  | .bound name value => s!"binding {name} to {value.text}"
  | .called name arguments => s!"calling {name} with {arguments.length} argument(s)"
  | .printed line => line

def line (e : Event) : String :=
  e.level ++ " " ++ e.target ++ " " ++ e.message

end Event

end MiniLisp

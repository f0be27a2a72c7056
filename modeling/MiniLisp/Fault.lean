import MiniLisp.Token
import MiniLisp.Value.Text

/-!
# Faults

Why a program is refused or an evaluation stops. A fault holds its causes; its wording is made
when it is shown.
-/

namespace MiniLisp

/-- The forms that are evaluated by rules of their own. -/
inductive Form where
  | conditional
  | define
  | set
  | function
deriving DecidableEq, Repr

namespace Form

def name : Form → String
  | .conditional => "if"
  | .define => "define"
  | .set => "set"
  | .function => "function"

def ofName? : String → Option Form
  | "if" => some .conditional
  | "define" => some .define
  | "set" => some .set
  | "function" => some .function
  | _ => none

end Form

/-- What a primitive asks of an argument. -/
inductive Demand where
  | numbers
  | list
  | function
  | boolean
deriving DecidableEq, Repr

def Demand.text : Demand → String
  | .numbers => "numbers"
  | .list => "a list"
  | .function => "a function"
  | .boolean => "a boolean"

/-- The wrong count or kind of operands or arguments. -/
inductive Misuse where
  | operandCount (form : Form) (expected got : Nat)
  /-- A form wants a name here. -/
  | notASymbol (form : Form) (tree : Sexp)
  /-- A declaration wants a list of parameters here. -/
  | notParameters (tree : Sexp)
  /-- A placeholder was to be evaluated. -/
  | unfilled (index : Nat)
  | argumentCount (name : String) (expected got : Nat)
  /-- A primitive that wants one argument or more was given none. -/
  | noArguments (name : String)
  | unexpected (name : String) (demand : Demand) (value : Value)
  | headOfEmpty
  /-- Too few arguments of `map`: it was not given a function and a list. -/
  | mapArguments (got : Nat)

def Misuse.message : Misuse → String
  | .operandCount form expected got => s!"{form.name} expects {expected} operands, got {got}"
  | .notASymbol form tree => s!"{form.name} expects a symbol, got {tree.text}"
  | .notParameters tree => s!"function expects a list of parameters, got {tree.text}"
  | .unfilled index => s!"unfilled parameter #{index}"
  | .argumentCount name expected got => s!"{name} expects {expected} argument(s), got {got}"
  | .noArguments name => s!"{name} expects at least one argument"
  | .unexpected name demand value =>
    s!"{name} expects {demand.text}, got {value.kind.name} {value.text}"
  | .headOfEmpty => "head of an empty list"
  | .mapArguments got =>
    s!"map expects a function and at least one list, got {got} argument(s)"

/-- Why an evaluation has no value. -/
inductive Fault where
  | unreadable (fault : ReadFault)
  | undefined (name : String)
  /-- The head of an application is not a function. -/
  | notCallable (value : Value)
  | misuse (fault : Misuse)
  /-- Evaluation was nested deeper than this limit. -/
  | overflow (limit : Nat)
  /-- A line could not be written, and this is what the sink says. -/
  | output (reason : String)

namespace Fault

def kind : Fault → String
  | .unreadable _ => "SyntaxError"
  | .undefined _ => "UndefinedSymbol"
  | .notCallable _ => "NotCallable"
  | .misuse _ => "ArityOrTypeError"
  | .overflow _ => "StackOverflow"
  | .output _ => "OutputError"

/-- What a fault says beside its kind. -/
def detail : Fault → String
  | .unreadable fault => fault.message
  | .undefined name => s!"'{name}' is not defined"
  | .notCallable value => s!"{value.text} is not a procedure"
  | .misuse fault => fault.message
  | .overflow limit => s!"evaluation exceeded depth {limit}"
  | .output reason => reason

def message (f : Fault) : String :=
  f.kind ++ ": " ++ f.detail

end Fault

end MiniLisp

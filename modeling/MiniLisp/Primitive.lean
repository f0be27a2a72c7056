/-!
# The primitive procedures

The procedures that a fresh environment holds, by what they do. An `Operation` computes a value
from values alone; `map` and `apply` call other procedures, and `println` writes.
-/

namespace MiniLisp

/-- The kinds of value that a program can tell apart. -/
inductive Kind where
  | number | boolean | string | symbol | none | list | function
deriving DecidableEq, Repr

/-- The name of a kind, as error messages give it. -/
def Kind.name : Kind → String
  | .number => "number"
  | .boolean => "boolean"
  | .string => "string"
  | .symbol => "symbol"
  | .none => "none"
  | .list => "list"
  | .function => "function"

/-- Arithmetic on any positive count of numbers. -/
inductive Arithmetic where
  | add | subtract | multiply | divide | maximum | minimum
deriving DecidableEq, Repr

def Arithmetic.name : Arithmetic → String
  | .add => "+"
  | .subtract => "-"
  | .multiply => "*"
  | .divide => "/"
  | .maximum => "max"
  | .minimum => "min"

def Arithmetic.all : List Arithmetic :=
  [.add, .subtract, .multiply, .divide, .maximum, .minimum]

/-- Order between neighbouring numbers. -/
inductive Comparison where
  | greater | greaterEqual | less | lessEqual
deriving DecidableEq, Repr

def Comparison.name : Comparison → String
  | .greater => ">"
  | .greaterEqual => ">="
  | .less => "<"
  | .lessEqual => "<="

def Comparison.all : List Comparison :=
  [.greater, .greaterEqual, .less, .lessEqual]

/-- Functions of one number. -/
inductive Elementary where
  | sin | cos | tan | asin | acos | atan | round | floor | abs | sqrt
deriving DecidableEq, Repr

def Elementary.name : Elementary → String
  | .sin => "sin"
  | .cos => "cos"
  | .tan => "tan"
  | .asin => "asin"
  | .acos => "acos"
  | .atan => "atan"
  | .round => "round"
  | .floor => "floor"
  | .abs => "abs"
  | .sqrt => "sqrt"

def Elementary.all : List Elementary :=
  [.sin, .cos, .tan, .asin, .acos, .atan, .round, .floor, .abs, .sqrt]

/-- The primitives that only compute. -/
inductive Operation where
  | arithmetic (op : Arithmetic)
  | power
  | comparison (rel : Comparison)
  /-- Equality of numbers. -/
  | equalNumbers
  /-- Equality of any values. -/
  | equal
  | not
  | elementary (f : Elementary)
  | list
  | head
  /-- Another name of `head`. -/
  | car
  | tail
  /-- Another name of `tail`. -/
  | cdr
  | attach
  /-- Another name of `attach`. -/
  | cons
  | length
  /-- Whether a value is of a kind. -/
  | is (kind : Kind)
  /-- The last of its arguments. -/
  | begin
  /-- Its one argument. -/
  | only
deriving DecidableEq, Repr

def Operation.name : Operation → String
  | .arithmetic op => op.name
  | .power => "exp"
  | .comparison rel => rel.name
  | .equalNumbers => "="
  | .equal => "eq?"
  | .not => "not"
  | .elementary f => f.name
  | .list => "list"
  | .head => "head"
  | .car => "car"
  | .tail => "tail"
  | .cdr => "cdr"
  | .attach => "attach"
  | .cons => "cons"
  | .length => "length"
  | .is kind => kind.name ++ "?"
  | .begin => "begin"
  | .only => "only"

/-- The operations that a fresh environment holds. There is no predicate for symbols, because no
evaluation gives one. -/
def Operation.all : List Operation :=
  List.flatten
    [Arithmetic.all.map .arithmetic,
     Comparison.all.map .comparison,
     Elementary.all.map .elementary,
     [.power, .equalNumbers, .equal, .not, .begin, .only],
     [.list, .head, .car, .tail, .cdr, .attach, .cons, .length],
     [.is .number, .is .string, .is .list, .is .function, .is .none, .is .boolean]]

/-- A procedure that is not written in the language itself. -/
inductive Primitive where
  | operation (op : Operation)
  | map
  | apply
  | println
deriving DecidableEq, Repr

namespace Primitive

def name : Primitive → String
  | .operation op => op.name
  | .map => "map"
  | .apply => "apply"
  | .println => "println"

/-- The primitives that a fresh environment holds. -/
def all : List Primitive :=
  (Operation.all.map Primitive.operation).append [.map, .apply, .println]

end Primitive

end MiniLisp

import MiniLisp.Primitive

/-!
# Values and trees

`Value` is what programs compute with and `Sexp` is what they consist of. A tree holds values as
its leaves, and a procedure that a program declares holds a tree, so the types are defined
together.

A procedure's template is its body with placeholders where its parameters stood; placeholders
occur nowhere else.
-/

namespace MiniLisp

mutual

/-- What an evaluation gives. -/
inductive Value where
  | number (x : Float)
  | boolean (b : Bool)
  | string (text : String)
  /-- A name that stands for itself; in a tree it stands for what it is bound to. -/
  | symbol (name : String)
  | none
  | list (items : List Value)
  | function (f : Procedure)

/-- What can be called. -/
inductive Procedure where
  | primitive (p : Primitive)
  /-- A procedure declared by a program; `id` tells apart those declared at different times. -/
  | declared (id : Nat) (name : String) (parameters : List String) (template : Sexp)

/-- A tree: a program, a part of one, or a template. -/
inductive Sexp where
  | atom (v : Value)
  | expression (items : List Sexp)
  /-- Stands in a template for the parameter at this position. -/
  | placeholder (index : Nat)

end

instance : Inhabited Value := ⟨.none⟩

instance : Inhabited Sexp := ⟨.expression []⟩

/-- The name a procedure was declared or provided under. -/
def Procedure.name : Procedure → String
  | .primitive p => p.name
  | .declared _ name _ _ => name

def Value.kind : Value → Kind
  | .number _ => .number
  | .boolean _ => .boolean
  | .string _ => .string
  | .symbol _ => .symbol
  | .none => .none
  | .list _ => .list
  | .function _ => .function

mutual

/-- How many values a value consists of, itself and the items of lists at any depth. -/
def Value.size : Value → Nat
  | .list items => 1 + Value.sizes items
  | _ => 1

def Value.sizes : List Value → Nat
  | [] => 0
  | v :: rest => v.size + Value.sizes rest

end

end MiniLisp

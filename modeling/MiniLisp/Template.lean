import MiniLisp.Value

/-!
# Templates

A procedure's body is stored with a placeholder at each place of a parameter, and a call fills
the placeholders with the argument values, all at once. Values that are filled in are leaves of
the resulting tree and are not searched again.
-/

namespace MiniLisp

mutual

/-- Puts placeholders for the parameters into a tree. A name that occurs twice among the
parameters stands for its first position. -/
def Sexp.abstracted (parameters : List String) : Sexp → Sexp
  | .atom (.symbol name) =>
    match parameters.idxOf? name with
    | some index => .placeholder index
    | none => .atom (.symbol name)
  | .atom v => .atom v
  | .expression items => .expression (Sexp.abstractedAll parameters items)
  | .placeholder index => .placeholder index

def Sexp.abstractedAll (parameters : List String) : List Sexp → List Sexp
  | [] => []
  | s :: rest => s.abstracted parameters :: Sexp.abstractedAll parameters rest

end

mutual

/-- Fills the placeholders of a tree with values; those beyond the values stay. -/
def Sexp.filled (values : List Value) : Sexp → Sexp
  | .placeholder index =>
    match values[index]? with
    | some v => .atom v
    | none => .placeholder index
  | .expression items => .expression (Sexp.filledAll values items)
  | .atom v => .atom v

def Sexp.filledAll (values : List Value) : List Sexp → List Sexp
  | [] => []
  | s :: rest => s.filled values :: Sexp.filledAll values rest

end

end MiniLisp

import MiniLisp.Value

/-!
# Equality

Numbers are compared as IEEE doubles, so that `NaN` differs from itself and the two zeros are
equal. Primitives are equal when they go by the same name, declared procedures only when they
come from the same declaration. All else is compared part by part.
-/

namespace MiniLisp

/-- Whether two procedures are the same one. -/
def Procedure.equal : Procedure → Procedure → Bool
  | .primitive p, .primitive q => p == q
  | .declared id .., .declared id' .. => id == id'
  | _, _ => false

mutual

def Value.equal : Value → Value → Bool
  | .number x, .number y => x == y
  | .boolean b, .boolean c => b == c
  | .string s, .string t => s == t
  | .symbol n, .symbol m => n == m
  | .none, .none => true
  | .list items, .list others => Value.equalAll items others
  | .function f, .function g => f.equal g
  | _, _ => false

def Value.equalAll : List Value → List Value → Bool
  | [], [] => true
  | v :: rest, w :: others => v.equal w && Value.equalAll rest others
  | _, _ => false

end

mutual

def Sexp.equal : Sexp → Sexp → Bool
  | .atom v, .atom w => v.equal w
  | .expression items, .expression others => Sexp.equalAll items others
  | .placeholder i, .placeholder j => i == j
  | _, _ => false

def Sexp.equalAll : List Sexp → List Sexp → Bool
  | [], [] => true
  | s :: rest, t :: others => s.equal t && Sexp.equalAll rest others
  | _, _ => false

end

end MiniLisp

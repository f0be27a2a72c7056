import MiniLisp.Number.Shortest
import MiniLisp.Value

/-!
# The texts of values and trees

How results, error messages and log lines show a value or a tree. Strings are quoted, lists are
bracketed with commas, and a tree is written as it would be read.

Both are written by appending to a text, so that the time taken is linear in the result.
-/

namespace MiniLisp

mutual

/-- Appends the text of a value. -/
def Value.write (out : String) : Value → String
  | .number x => out ++ floatText x
  | .boolean b => out ++ if b then "true" else "false"
  | .string text => ((out.push '\'') ++ text).push '\''
  | .symbol name => out ++ "expr(" ++ name ++ ")"
  | .none => out ++ "None"
  | .list items => (Value.writeAll "" (out.push '[') items).push ']'
  | .function f => out ++ "<function " ++ f.name ++ ">"

/-- Appends the texts of some values, each after a separator: `gap` before the first one and a
comma before the others. -/
def Value.writeAll (gap out : String) : List Value → String
  | [] => out
  | v :: rest => Value.writeAll ", " (v.write (out ++ gap)) rest

end

def Value.text (v : Value) : String :=
  v.write ""

mutual

/-- Appends the text of a tree. -/
def Sexp.write (out : String) : Sexp → String
  | .atom (.symbol name) => out ++ name
  | .atom v => v.write out
  | .expression items => (Sexp.writeAll "" (out.push '(') items).push ')'
  | .placeholder index => out ++ "#" ++ toString index

/-- Appends the texts of some trees, each after a separator: `gap` before the first one and a
space before the others. -/
def Sexp.writeAll (gap out : String) : List Sexp → String
  | [] => out
  | s :: rest => Sexp.writeAll " " (s.write (out ++ gap)) rest

end

def Sexp.text (s : Sexp) : String :=
  s.write ""

end MiniLisp

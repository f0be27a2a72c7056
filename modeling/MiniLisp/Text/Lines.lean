import MiniLisp.Text.Blank

/-!
# Lines of a text

A text is cut at its line feeds. A carriage return right before a line feed belongs to the line
end, one anywhere else to the line; a text that ends in a line feed has no empty line after it.
-/

namespace MiniLisp

/-- A line read up to its line feed, last character first, without the carriage return that
belongs to the line end. -/
def dropReturn : List Char → List Char
  | '\r' :: reversed => reversed
  | reversed => reversed

/-- The lines of a text of which `reversed` is the part of the current line already read, last
character first. -/
def linesFrom (reversed : List Char) : List Char → List String
  | [] => if reversed.isEmpty then [] else [String.ofList reversed.reverse]
  | '\n' :: rest => String.ofList (dropReturn reversed).reverse :: linesFrom [] rest
  | c :: rest => linesFrom (c :: reversed) rest

def lines (text : String) : List String :=
  linesFrom [] text.toList

/-- Whether a line holds blank characters only. -/
def isBlankLine (line : String) : Bool :=
  line.toList.all isBlank

end MiniLisp

/-!
# Text whose end may be cut off

A sink that fills up may take only some of the bytes of a character. What it took is then shown
with one replacement character in place of the cut one.
-/

namespace MiniLisp

/-- The character that stands for an incomplete one. -/
def replacement : Char := '\uFFFD'

/-- The text of UTF-8 bytes whose last character may lack bytes at its end: a character has at
most four bytes, so at most three are dropped to find the complete ones. -/
def textOfCut (bytes : ByteArray) : String :=
  match String.fromUTF8? bytes with
  | some text => text
  | none =>
    let complete := [1, 2, 3].findSome? fun k =>
      String.fromUTF8? (bytes.extract 0 (bytes.size - k))
    (complete.getD "").push replacement

end MiniLisp

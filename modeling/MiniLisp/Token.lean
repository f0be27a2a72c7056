/-!
# Tokens

A program text is a sequence of parentheses, quoted strings and literals. `ReadFault` names what
can be wrong with a text before anything is evaluated.
-/

namespace MiniLisp

/-- A lexical unit of a program. -/
inductive Token where
  | leftParen
  | rightParen
  /-- The text between two quotes, whatever it holds. -/
  | quoted (text : String)
  /-- A run of characters without blanks, parentheses and quotes. -/
  | literal (text : String)
deriving DecidableEq, Repr

/-- The text of a token; that of a quoted string leaves the quotes out. -/
def Token.text : Token → String
  | .leftParen => "("
  | .rightParen => ")"
  | .quoted text => text
  | .literal text => text

/-- The deepest nesting of parentheses that the reader accepts. -/
def maxNesting : Nat := 1024

/-- Why a text is not a program. -/
inductive ReadFault where
  /-- A quote that is never closed, at this offset in the UTF-8 form of the text. -/
  | unclosedQuote (offset : Nat)
  /-- The text ends before an expression is complete. -/
  | unbalanced
  /-- Parentheses are nested more than `maxNesting` deep. -/
  | tooDeep
  /-- The text starts with a closing parenthesis. -/
  | unexpectedClose
  /-- The text goes on, with this token, after the end of the expression. -/
  | leftover (text : String)
deriving DecidableEq, Repr

def ReadFault.message : ReadFault → String
  | .unclosedQuote offset => s!"unterminated string literal starting at byte {offset}"
  | .unbalanced => "unbalanced parentheses or empty program"
  | .tooDeep => s!"expression too deeply nested (max depth: {maxNesting})"
  | .unexpectedClose => "unexpected close paren"
  | .leftover text => s!"unexpected {text} after the end of the program"

end MiniLisp

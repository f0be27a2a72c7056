import MiniLisp.Number.Decimal
import MiniLisp.Token.Lexer
import MiniLisp.Value

/-!
# The reader

Turns tokens into a tree. The reader keeps the expressions that are open, innermost first, and
goes through the tokens once; a token that completes the outermost expression, or an atom outside
any, ends the program.
-/

namespace MiniLisp

/-- What a text that is not quoted denotes: a number, a boolean, `none`, or else a symbol. -/
def Value.ofLiteral (text : String) : Value :=
  match Decimal.ofChars? text.toList with
  | some d => .number d.toFloat
  | Option.none =>
    match text with
    | "true" => .boolean true
    | "false" => .boolean false
    | "none" => .none
    | name => .symbol name

/-- What a token denotes as an atom: a quoted one its text, any other what its text denotes. -/
def Token.value : Token → Value
  | .quoted text => .string text
  | token => .ofLiteral token.text

/-- Reads a tree from the start of some tokens, inside the expressions `opened`, each given by
its items so far, last first. Gives the outermost tree and the tokens after it. -/
def readTree (opened : List (List Sexp)) : List Token → Except ReadFault (Sexp × List Token)
  | [] => .error .unbalanced
  | .leftParen :: rest =>
    if opened.length < maxNesting then readTree ([] :: opened) rest else .error .tooDeep
  | .rightParen :: rest =>
    match opened with
    | [] => .error .unexpectedClose
    | [items] => .ok (.expression items.reverse, rest)
    | items :: parent :: outer => readTree ((.expression items.reverse :: parent) :: outer) rest
  | token :: rest =>
    match opened with
    | [] => .ok (.atom token.value, rest)
    | items :: outer => readTree ((.atom token.value :: items) :: outer) rest

/-- Reads a program: one tree that takes up all the tokens. -/
def Sexp.ofTokens (tokens : List Token) : Except ReadFault Sexp := do
  match ← readTree [] tokens with
  | (tree, []) => return tree
  | (_, token :: _) => throw (.leftover token.text)

def parse (source : String) : Except ReadFault Sexp := do
  Sexp.ofTokens (← tokenize source)

end MiniLisp

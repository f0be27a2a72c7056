import MiniLisp.Text.Blank
import MiniLisp.Token

/-!
# The lexer

Cuts a text into tokens in one pass over its characters. Nothing but a quote can go wrong: a
quote that is open when the text ends is the one fault of this stage, so the pass itself never
fails and `Lexer.finish` decides.
-/

namespace MiniLisp

/-- What the lexer is in the middle of. The characters read are kept last first. -/
inductive Pending where
  /-- Outside quotes, after these characters of a literal; none means between two tokens. -/
  | plain (reversed : List Char)
  /-- Inside quotes that were opened at an offset, after these characters. -/
  | quoted (start : Nat) (reversed : List Char)
deriving Repr

/-- The state of the pass: the complete tokens, last first, what has been begun, and the offset
of the next character in the UTF-8 form of the text. -/
structure Lexer where
  tokens : List Token
  pending : Pending
  offset : Nat
deriving Repr

namespace Lexer

def start : Lexer := ⟨[], .plain [], 0⟩

/-- Adds a literal to the tokens unless it is empty. -/
def endLiteral (reversed : List Char) (tokens : List Token) : List Token :=
  if reversed.isEmpty then tokens else .literal (String.ofList reversed.reverse) :: tokens

def step (l : Lexer) (c : Char) : Lexer :=
  let offset := l.offset + c.utf8Size
  match l.pending with
  | .quoted start reversed =>
    if c = '\'' then
      ⟨.quoted (String.ofList reversed.reverse) :: l.tokens, .plain [], offset⟩
    else
      ⟨l.tokens, .quoted start (c :: reversed), offset⟩
  | .plain reversed =>
    if c = '\'' then ⟨endLiteral reversed l.tokens, .quoted l.offset [], offset⟩
    else if c = '(' then ⟨.leftParen :: endLiteral reversed l.tokens, .plain [], offset⟩
    else if c = ')' then ⟨.rightParen :: endLiteral reversed l.tokens, .plain [], offset⟩
    else if isBlank c then ⟨endLiteral reversed l.tokens, .plain [], offset⟩
    else ⟨l.tokens, .plain (c :: reversed), offset⟩

/-- The tokens once the text has ended. -/
def finish (l : Lexer) : Except ReadFault (List Token) :=
  match l.pending with
  | .plain reversed => .ok (endLiteral reversed l.tokens).reverse
  | .quoted start _ => .error (.unclosedQuote start)

end Lexer

def tokenize (source : String) : Except ReadFault (List Token) :=
  (source.toList.foldl Lexer.step Lexer.start).finish

end MiniLisp

import MiniLisp.Config.Reader
import MiniLisp.Session
import MiniLisp.Text.Lines

/-!
# The command line

The program takes an optional program file and any number of configuration files, of which the
last one counts. It evaluates each line of the program, or of the standard input, that is not
blank, and prints its result after the number of the line.
-/

namespace MiniLisp.CommandLine

/-! ## Arguments -/

/-- Why the command line ends without evaluating anything. -/
inductive Refusal where
  /-- The arguments are not understood, or ask how they are to be given. -/
  | usage
  /-- A file cannot be read. -/
  | reading (file : String)
  /-- A file has been read, but it is not a configuration. -/
  | parsing (file : String) (fault : Json.Fault)
  /-- The standard input cannot be read. -/
  | readingInput
deriving DecidableEq, Repr

namespace Refusal

def status : Refusal → UInt8
  | .usage => 2
  | .reading _ | .parsing _ _ | .readingInput => 1

/-- What the user is told, where `cause` is what the host says if it cannot read. What is wrong with
a configuration is told by its category only. -/
def notice (cause : String) : Refusal → String
  | .usage => "usage: attolisp [--config <config.json>] [program.lisp]"
  | .reading file => s!"Error: reading {file}\n\nCaused by:\n    {cause}"
  | .parsing file fault => s!"Error: parsing {file}\n\nCaused by:\n    {fault.category}"
  | .readingInput => s!"Error: {cause}"

end Refusal

/-- What the arguments ask for. -/
structure Invocation where
  config : Config
  /-- The program file; without one the program is the standard input. -/
  program : Option String
deriving DecidableEq, Repr

/-- Reads the arguments from left to right, after those that have given `inv`; the first one that
cannot be used decides. `read` gives the text of a file, if it can be read. -/
def readArguments {m : Type → Type} [Monad m] (read : String → m (Option String))
    (inv : Invocation) : List String → m (Except Refusal Invocation)
  | [] => pure (.ok inv)
  | ["--config"] => pure (.error .usage)
  | "--config" :: file :: rest => do
    match (← read file).map Config.ofJson with
    | none => pure (.error (.reading file))
    | some (.error fault) => pure (.error (.parsing file fault))
    | some (.ok config) => readArguments read { inv with config } rest
  | argument :: rest =>
    if argument = "-h" ∨ argument = "--help" ∨ inv.program.isSome then
      pure (.error .usage)
    else
      readArguments read { inv with program := some argument } rest

/-- The configuration and the program text that the arguments ask for. -/
def load {m : Type → Type} [Monad m] (read : String → m (Option String))
    (input : m (Option String)) (arguments : List String) :
    m (Except Refusal (Config × String)) := do
  match ← readArguments read ⟨.standard, none⟩ arguments with
  | .error refusal => return .error refusal
  | .ok inv =>
    let source ← match inv.program with
      | some file => read file
      | none => input
    match source with
    | some text => return .ok (inv.config, text)
    | none => return .error (inv.program.elim .readingInput .reading)

/-! ## Programs -/

/-- The lines of a program that are to be evaluated, each with its number. -/
def programs (source : String) : List (Nat × String) :=
  ((lines source).zipIdx 1).filterMap fun (line, number) =>
    if isBlankLine line then none else some (number, line)

def resultText : Except Fault Value → String
  | .ok v => v.text
  | .error fault => fault.message

/-- Evaluates a line and gives what is printed for it: what it prints itself, then its result. -/
def answer (s : Session) (number : Nat) (line : String) : String × Session :=
  let (result, s) := s.clearRecords.evaluateText line
  (s!"{s.state.output.text}{number}: {resultText result}\n", s)

def answers (s : Session) : List (Nat × String) → List String
  | [] => []
  | (number, line) :: rest =>
    let (text, s) := answer s number line
    text :: answers s rest

def transcript (config : Config) (source : String) : String :=
  String.join (answers (.start config .unlimited) (programs source))

/-! ## The program -/

section Program

variable {m : Type → Type} [Monad m]

/-- Prints the answer to each line as soon as there is one. -/
def printAnswers (print : String → m Unit) (s : Session) : List (Nat × String) → m Unit
  | [] => return
  | (number, line) :: rest => do
    let (text, s) := answer s number line
    print text
    printAnswers print s rest

/-- Runs the command line and gives its exit status. `print` writes to the standard output, and
`refuse` tells the user about a refusal. -/
def program (read : String → m (Option String)) (input : m (Option String))
    (print : String → m Unit) (refuse : Refusal → m Unit) (arguments : List String) : m UInt32 := do
  match ← load read input arguments with
  | .error refusal =>
    refuse refusal
    return refusal.status.toUInt32
  | .ok (config, source) =>
    printAnswers print (.start config .unlimited) (programs source)
    return 0

end Program

end MiniLisp.CommandLine

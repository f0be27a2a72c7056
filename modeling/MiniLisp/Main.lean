import MiniLisp.CommandLine

/-!
# The program

Runs the command line on the files, the standard input and the standard output of the process.
-/

namespace MiniLisp.CommandLine

/-- The process, with what it says of the last failure to read. -/
abbrev Process := StateT String IO

/-- The text that is read, if it can be. -/
def Process.text? (text : IO String) : Process (Option String) := do
  try
    return some (← text)
  catch failure =>
    set (toString failure)
    return none

def Process.readFile? (name : String) : Process (Option String) :=
  Process.text? (IO.FS.readFile name)

def Process.readInput? : Process (Option String) :=
  Process.text? do (← IO.getStdin).readToEnd

def Process.refuse (refusal : Refusal) : Process Unit := do
  IO.eprintln (refusal.notice (← get))

end MiniLisp.CommandLine

open MiniLisp CommandLine in
def main (arguments : List String) : IO UInt32 := do
  let running : Process UInt32 :=
    program Process.readFile? Process.readInput? (fun text => IO.print text) Process.refuse
      arguments
  return (← running.run "").1

/-!
# Configuration

How far evaluation may nest and whether printed lines are written.
-/

namespace MiniLisp

/-- The settings of a session. -/
structure Config where
  /-- How deeply evaluation may nest. -/
  maxDepth : Nat
  /-- Whether printed lines go to the output. They are reported as events in any case. -/
  echo : Bool
deriving DecidableEq, Repr

/-- The settings where none are given. -/
def Config.standard : Config := ⟨10000, true⟩

end MiniLisp

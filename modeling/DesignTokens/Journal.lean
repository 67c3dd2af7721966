/-!
Notes that operations leave for a reader of their log.
-/

namespace DesignTokens

/-- How important a note is. -/
inductive Level where
  | debug
  | warning
  deriving DecidableEq, Repr

def Level.name : Level → String
  | debug => "DEBUG"
  | warning => "WARNING"

/-- A note, with the part of the compiler that made it. -/
structure Note where
  level : Level
  source : String
  message : String
  deriving DecidableEq, Repr

/-- One line of a log. -/
def Note.line (n : Note) : String := s!"{n.level.name} {n.source}: {n.message}"

end DesignTokens

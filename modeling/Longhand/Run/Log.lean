/-!
# Log lines

What a run tells about its work, by importance.
-/

namespace Longhand.Run

/-- How important a log line is, from the most important on. -/
inductive Level where
  | error
  | warn
  | info
  | debug
  | trace
  deriving Repr, DecidableEq

def Level.rank : Level → Nat
  | .error => 0
  | .warn => 1
  | .info => 2
  | .debug => 3
  | .trace => 4

def Level.text : Level → String
  | .error => "ERROR"
  | .warn => "WARN"
  | .info => "INFO"
  | .debug => "DEBUG"
  | .trace => "TRACE"

structure LogLine where
  level : Level
  text : String
  deriving Repr, DecidableEq

/-- Whether a line is shown when lines up to a level are. -/
def LogLine.shownAt (line : LogLine) (limit : Level) : Bool :=
  line.level.rank ≤ limit.rank

end Longhand.Run

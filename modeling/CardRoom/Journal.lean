/-! # Journal

What an operation has to report beside its result, in the order in which it happened.
-/

namespace CardRoom

inductive Level where
  | debug
  | info
  | warn
  deriving DecidableEq, Repr

def Level.name : Level → String
  | .debug => "DEBUG"
  | .info => "INFO"
  | .warn => "WARN"

/-- One line of the journal. -/
structure Note where
  level : Level
  text : String
  deriving DecidableEq, Repr

end CardRoom

/-!
# Log records

Operations answer with the records they would log, in order. The command line shows warnings and
errors, or all records when it is asked to be verbose.
-/

namespace StyleBundle

/-- How important a record is. -/
inductive Level
  /-- Details of a run. -/
  | debug
  /-- A step that took another way. -/
  | info
  /-- Something that went wrong for one file. -/
  | warning
  /-- Something that should not happen. -/
  | error
  deriving DecidableEq, Repr

/-- The name of a level. -/
def Level.name : Level → String
  | .debug => "DEBUG"
  | .info => "INFO"
  | .warning => "WARNING"
  | .error => "ERROR"

/-- Whether a level is shown without being asked for. -/
def Level.isShown : Level → Bool
  | .debug | .info => false
  | .warning | .error => true

/-- A log record. -/
structure LogRecord where
  /-- How important it is. -/
  level : Level
  /-- The part of the program that logs it. -/
  source : String
  /-- What it says. -/
  message : String
  deriving DecidableEq, Repr

/-- The record as one line. -/
def LogRecord.line (r : LogRecord) : String := s!"{r.level.name}:{r.source}:{r.message}"

end StyleBundle

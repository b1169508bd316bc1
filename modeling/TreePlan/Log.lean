import TreePlan.Kind
import TreePlan.Pair
import TreePlan.Session

/-!
# Log records

What a run tells about its progress, each record with a level and a text.
-/

namespace TreePlan

/-- How much a log record matters, the most important first. -/
inductive Level where
  | error
  | warn
  | info
  | debug
  | trace
  deriving DecidableEq, Repr

namespace Level

def name : Level → String
  | .error => "ERROR"
  | .warn => "WARN"
  | .info => "INFO"
  | .debug => "DEBUG"
  | .trace => "TRACE"

/-- How far a level is from the most important one, counted from 1. -/
def rank : Level → Nat
  | .error => 1
  | .warn => 2
  | .info => 3
  | .debug => 4
  | .trace => 5

end Level

inductive LogRecord where
  | reconciling (pair : Pair)
  | visiting (source destination : Kind) (pair : Pair)  -- a pair was classified
  /-- A file and a directory change places at `path`. -/
  | typeConflict (source destination : Kind) (path : Path)
  | finished (report : Report)  -- all pairs are done
  deriving DecidableEq, Repr

namespace LogRecord

/-- The level of a record. -/
def level : LogRecord → Level
  | .reconciling .. => .info
  | .visiting .. => .debug
  | .typeConflict .. => .warn
  | .finished .. => .info

def truth : Bool → String
  | true => "true"
  | false => "false"

def text : LogRecord → String
  | .reconciling pair => s!"reconciling {pair.shown}"
  | .visiting source destination pair => s!"{source.name}/{destination.name}: {pair.shown}"
  | .typeConflict source destination path =>
    s!"type conflict ({source.name} replaces {destination.name}) at {path.shown}"
  | .finished report =>
    s!"{report.commands} commands ({report.adds.size} adds, {report.deletes.size} deletes, " ++
      s!"conflict: {truth report.conflict})"

end LogRecord

end TreePlan

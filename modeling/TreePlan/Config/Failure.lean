import TreePlan.Failure
import TreePlan.Yaml.Mark

/-!
# Failures of configurations

Why a configuration could not be loaded. What is wrong in a file that was read is a
`Defect`: what it is, which part of the configuration it is in, and where in the text.
-/

namespace TreePlan.Config

/-- One step from a value to a part of it. -/
inductive Segment where
  | key (name : List Char)
  | item (index : Nat)
  | unnamed  -- the value of a key that is not written out
  deriving DecidableEq, Repr

/-- The way from the whole configuration to a part of it. -/
abbrev Trail := List Segment

/-- The text of a way, empty for the whole configuration. -/
def Trail.text (trail : Trail) : String :=
  String.ofList (trail.foldl step [])
where
  /-- The text one step further. -/
  step (above : List Char) : Segment → List Char
    | .key name => dotted above name
    | .item index => above ++ ['['] ++ (Nat.repr index).toList ++ [']']
    | .unnamed => dotted above ['?']
  /-- A name behind what is above it. -/
  dotted (above name : List Char) : List Char :=
    if above = [] then name else above ++ '.' :: name

/-- What is wrong with a configuration. -/
inductive Fault where
  | missingField (name : String)
  | duplicateField (name : String)
  /-- A value of the wrong kind: what was found, and what should be there. -/
  | wrongType (found expected : String)
  | wrongValue (found expected : String)  -- a value that its own tag does not allow
  | malformed (reason : String)  -- the text is no document
  deriving DecidableEq, Repr

/-- The text of a fault. -/
def Fault.message : Fault → String
  | .missingField name => s!"missing field \x60{name}\x60"
  | .duplicateField name => s!"duplicate field \x60{name}\x60"
  | .wrongType found expected => s!"invalid type: {found}, expected {expected}"
  | .wrongValue found expected => s!"invalid value: {found}, expected {expected}"
  | .malformed reason => reason

structure Defect where
  fault : Fault
  trail : Trail
  place : Yaml.Mark
  deriving DecidableEq, Repr

/-- The text of a defect: the part, unless it is the whole, then the fault, then the place,
unless it is the very start. -/
def Defect.message (defect : Defect) : String :=
  let part := if defect.trail = [] then "" else defect.trail.text ++ ": "
  let place := if defect.place.isStart then "" else " at " ++ defect.place.text
  part ++ defect.fault.message ++ place

/-- Why a configuration could not be loaded from `path`. -/
inductive Failure where
  | notFound (path : Path)
  | unreadable (path : Path) (cause : OsError)
  | defective (path : Path) (defect : Defect)
  | noPairs (path : Path)
  deriving DecidableEq, Repr

namespace Failure

def message : Failure → String
  | .notFound path => s!"config not found at {path.shown}"
  | .unreadable path cause => s!"I/O error reading {path.shown}: {cause.message}"
  | .defective path defect => s!"failed to parse config at {path.shown}: {defect.message}"
  | .noPairs path => s!"config at {path.shown} lists no source/destination pairs"

/-- The cause below a failure, where it has one of its own. -/
def cause? : Failure → Option String
  | .unreadable _ cause => some cause.message
  | .defective _ defect => some defect.message
  | .notFound _ | .noPairs _ => none

end Failure

end TreePlan.Config

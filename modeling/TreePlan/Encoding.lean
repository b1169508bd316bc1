import TreePlan.Command
import TreePlan.Json
import TreePlan.Session

/-!
# Commands and reports as documents

A document can only hold text, so a command with a path that is not UTF-8 has none. A walk
refuses such a path before it decides on a command, so what a walk emits always has one.
-/

namespace TreePlan

def Path.encode? (path : Path) : Option Json := path.text?.map .text

def encodePaths? (paths : List Path) : Option Json := (paths.mapM Path.encode?).map .list

namespace Command

def kind : Command → String
  | .remove .. => "remove"
  | .copy .. => "copy"
  | .mkdir .. => "mkdir"
  | .delete .. => "vcs_delete"
  | .commit .. => "vcs_commit"
  | .add .. => "vcs_add"

def fields? : Command → Option (List (String × Json))
  | .remove path recursive => do
    return [("path", ← path.encode?), ("recursive", .bool recursive)]
  | .copy source target => do
    return [("from", ← source.encode?), ("to", ← target.encode?)]
  | .mkdir path => do return [("path", ← path.encode?)]
  | .delete paths => do return [("paths", ← encodePaths? paths)]
  | .commit message paths => do
    return [("message", .text message), ("paths", ← encodePaths? paths)]
  | .add paths => do return [("paths", ← encodePaths? paths)]

/-- A command as a document: its kind, then its fields. -/
def encode? (command : Command) : Option Json :=
  command.fields?.map fun fields => .record (("kind", .text command.kind) :: fields)

/-- A command as a document that also has its command line. -/
def encodeWithLine? (command : Command) : Option Json :=
  command.fields?.map fun fields =>
    .record (("kind", .text command.kind) :: fields ++ [("line", .text command.line)])

end Command

def Report.encode? (report : Report) : Option Json := do
  return .record
    [("commands", .number report.commands),
     ("adds", ← encodePaths? report.adds.toList),
     ("deletes", ← encodePaths? report.deletes.toList),
     ("conflict", .bool report.conflict)]

/-- What is said where a path has no document. -/
def unencodable : String := "path contains invalid UTF-8 characters"

end TreePlan

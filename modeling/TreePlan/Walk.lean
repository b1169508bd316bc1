import TreePlan.Dialogue
import TreePlan.Policy

/-!
# The walk

The walk compares the two sides of a pair and everything below them. It works off a list of
tasks rather than calling itself, so the depth of a tree costs no stack:

* a `visit` classifies a pair and takes the actions of the policy;
* when the actions reach `recurse`, visits of all children are put in front of the list,
  followed by a `resume` that takes the actions left over.

Below a side that is not a directory nothing can exist, so there the walk takes the kind of
that side to be missing without asking.
-/

namespace TreePlan

/-- What a plan depends on besides the two trees. -/
structure Rules where
  metadataNames : List Name := [Bytes.ofString ".svn"]  -- entry names that are passed over
  /-- The message of the commit that sets the deletions apart. -/
  commitMessage : String := "remove obsolete files from the snapshot tree"
  deriving DecidableEq, Repr

/-- One piece of work that is left to do. -/
inductive Task where
  /-- Classify a pair and take all its actions. A side that is gone is known to be missing. -/
  | visit (pair : Pair) (sourceGone destinationGone : Bool)
  /-- Take the rest of the actions of a pair that was classified before. -/
  | resume (pair : Pair) (source destination : Kind) (actions : List Action)
  deriving DecidableEq, Repr

namespace Walk

/-- Refuses a path that no command line could hold. -/
def requireText (path : Path) : Dialogue Unit :=
  if path.isText then pure () else .fail (.notText path)

/-- The kind of one side of a pair, asked only where it is not known. -/
def kindAt (gone : Bool) (path : Path) : Dialogue Kind :=
  if gone then pure .missing else .classify path

/-- The entries of one side of a pair; only a directory has any. -/
def entriesAt (kind : Kind) (path : Path) : Dialogue (List Name) :=
  if kind = .directory then .list path else pure []

/-- The names of a listing that are not passed over, each once and in bytewise order. -/
def visible (rules : Rules) (names : List Name) : List Name :=
  nameSet (names.filter fun name => name ∉ rules.metadataNames)

def childNames (rules : Rules) (pair : Pair) (source destination : Kind) :
    Dialogue (List Name) := do
  let inSource ← entriesAt source pair.source
  let inDestination ← entriesAt destination pair.destination
  return visible rules (inSource ++ inDestination)

/-- The visits of the children with the given names. A side that is not a directory has no
children, so they are known to be missing there. -/
def visits (pair : Pair) (source destination : Kind) (names : List Name) : List Task :=
  names.map fun name =>
    .visit (pair.child name) (source != .directory) (destination != .directory)

/-- Takes actions in order, up to the end or to `recurse`; yields the work that comes next. -/
def perform (rules : Rules) (pair : Pair) (source destination : Kind) :
    List Action → Dialogue (List Task)
  | [] => pure []
  | .remove :: rest => do
    .emit (.remove pair.destination (destination = .directory))
    perform rules pair source destination rest
  | .copy :: rest => do
    .emit (.copy pair.source pair.destination)
    perform rules pair source destination rest
  | .copyIfDifferent :: rest => do
    if !(← .same pair.source pair.destination) then
      .emit (.copy pair.source pair.destination)
    perform rules pair source destination rest
  | .mkdir :: rest => do
    .emit (.mkdir pair.destination)
    perform rules pair source destination rest
  | .queueAdd :: rest => do
    .note (.add pair.destination)
    perform rules pair source destination rest
  | .queueDelete :: rest => do
    .note (.delete pair.destination)
    perform rules pair source destination rest
  | .flagConflict :: rest => do
    .log (.typeConflict source destination pair.destination)
    .note .conflict
    perform rules pair source destination rest
  | .recurse :: rest => do
    let names ← childNames rules pair source destination
    -- What is left of the row waits until the children are done.
    return visits pair source destination names ++ [.resume pair source destination rest]

/-- Does one task; yields the tasks to do before any other. -/
def step (rules : Rules) : Task → Dialogue (List Task)
  | .visit pair sourceGone destinationGone => do
    requireText pair.source
    requireText pair.destination
    let source ← kindAt sourceGone pair.source
    let destination ← kindAt destinationGone pair.destination
    .log (.visiting source destination pair)
    perform rules pair source destination (policy source destination)
  | .resume pair source destination actions => perform rules pair source destination actions

/-- Works off a list of tasks, within a budget of steps. -/
def workOff (rules : Rules) : (budget : Nat) → List Task → Dialogue Unit
  | _, [] => pure ()
  | 0, _ :: _ => .fail .exhausted
  | budget + 1, task :: rest => do
    let first ← step rules task
    workOff rules budget (first ++ rest)

/-- A budget that no walk over a tree that fits into a memory uses up. -/
def ampleBudget : Nat := Nat.pow 2 60

end Walk

def walk (rules : Rules) (budget : Nat) (pair : Pair) : Dialogue Unit :=
  Walk.workOff rules budget [.visit pair false false]

/-- The names of the children of a pair that has not been classified. -/
def children (rules : Rules) (pair : Pair) : Dialogue (List Name) := do
  let source ← .classify pair.source
  let destination ← .classify pair.destination
  Walk.childNames rules pair source destination

end TreePlan

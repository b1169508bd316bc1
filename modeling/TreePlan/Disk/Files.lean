import TreePlan.Contents
import TreePlan.Disk.Resolve
import TreePlan.Query

/-!
# Disks as file systems

How a disk answers the queries of a walk, seen from a working directory. Links are followed,
with one exception: a link that leads nowhere is an entry all the same, so it is a failure
and not an absence.
-/

namespace TreePlan.Disk

/-- The kind of a node that no link hides. -/
def Node.kind : Node → Kind
  | .directory => .directory
  | .file _ | .link _ => .file

/-- How long a node says its contents are; a directory says the size of one block. -/
def Node.length : Node → Nat
  | .directory => 4096
  | .file contents => contents.length
  | .link target => target.bytes.length

def classify (disk : Disk) (here : Location) (path : Path) : Except Failure Kind :=
  match disk.find here path with
  | .ok (_, node) => .ok node.kind
  -- Nothing is there with the links followed. A link is there all the same, if it is the entry
  -- itself that leads nowhere.
  | .error .noEntry =>
    match disk.resolve here false path with
    | .ok location =>
      match disk.node? location with
      | some (.link _) => .error (.brokenLink path)
      | _ => .ok .missing
    | .error _ => .ok .missing
  -- Here the entry itself is not looked at: a link that leads through a file passes for nothing.
  | .error .notDirectory => .ok .missing
  | .error cause => .error (.io path cause)

def list (disk : Disk) (here : Location) (path : Path) : Except Failure (List Name) :=
  match disk.find here path with
  | .ok (location, .directory) => .ok (disk.names location)
  | .ok _ => .error (.io path .notDirectory)
  | .error cause => .error (.io path cause)

def nodeAt (disk : Disk) (here : Location) (path : Path) : Except Failure Node :=
  match disk.find here path with
  | .ok (_, node) => .ok node
  | .error cause => .error (.io path cause)

def Node.read (path : Path) : Node → Except Failure Bytes
  | .file contents => .ok contents
  | .link _ => .ok []
  | .directory => .error (.io path .isDirectory)

/-- Whether two files hold the same bytes. Files of different lengths are not read. -/
def same (disk : Disk) (here : Location) (a b : Path) : Except Failure Bool := do
  let nodeA ← disk.nodeAt here a
  let nodeB ← disk.nodeAt here b
  if nodeA.length ≠ nodeB.length then return false
  let contentsA ← nodeA.read a
  let contentsB ← nodeB.read b
  return Contents.same contentsA contentsB

/-- How a disk answers, seen from the working directory `here`. -/
def answer (disk : Disk) (here : Location) : (q : Query) → Except Failure q.Answer
  | .classify path => disk.classify here path
  | .list path => disk.list here path
  | .same a b => disk.same here a b

def fileSystem (disk : Disk) (here : Location) : FileSystem Unit := .ofAnswers (disk.answer here)

/-- Whether there is anything at a path, links followed. -/
def present (disk : Disk) (here : Location) (path : Path) : Bool := (disk.find here path).isOk

def contents (disk : Disk) (here : Location) (path : Path) : Except OsError Bytes :=
  match disk.find here path with
  | .ok (_, .file contents) => .ok contents
  | .ok (_, .link _) => .ok []
  | .ok (_, .directory) => .error .isDirectory
  | .error cause => .error cause

end TreePlan.Disk

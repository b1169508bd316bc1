import TreePlan.Query

/-!
# Tables as file systems

A table gives the answer for each path text by itself, so it can hold what no disk does: a
directory that lists a name without an entry, or two texts of one path with different
entries. Single queries can be made to fail.
-/

namespace TreePlan

inductive Table.Entry where
  | directory (names : List Name)
  | file (contents : Bytes)
  deriving DecidableEq, Repr

/-- The three questions, without the paths they are about. -/
inductive Table.Question where
  | classify
  | list
  | same
  deriving DecidableEq, Repr

/-- A file system given entry by entry. -/
structure Table where
  entries : List (Path × Table.Entry) := []  -- the entries by path text, the latest first
  /-- The questions that fail on a path, the latest first. -/
  faults : List ((Table.Question × Path) × Failure) := []
  deriving DecidableEq, Repr

namespace Table

/-- The table with one more entry, which takes the place of any other for the path. -/
def insert (table : Table) (path : Path) (entry : Entry) : Table :=
  { table with entries := (path, entry) :: table.entries }

/-- The table where one question on a path fails. -/
def breakAt (table : Table) (question : Question) (path : Path) (failure : Failure) : Table :=
  { table with faults := ((question, path), failure) :: table.faults }

def entry? (table : Table) (path : Path) : Option Entry := table.entries.lookup path

/-- Fails if the question is made to fail on the path. -/
def check (table : Table) (question : Question) (path : Path) : Except Failure Unit :=
  match table.faults.lookup (question, path) with
  | some failure => .error failure
  | none => .ok ()

/-- What the table has at a path, failures aside. -/
def kind (table : Table) (path : Path) : Kind :=
  match table.entry? path with
  | none => .missing
  | some (.directory _) => .directory
  | some (.file _) => .file

/-- The listing of a path, empty for anything but a directory. -/
def names (table : Table) (path : Path) : List Name :=
  match table.entry? path with
  | some (.directory names) => names
  | _ => []

def contents? (table : Table) (path : Path) : Option Bytes :=
  match table.entry? path with
  | some (.file contents) => some contents
  | _ => none

def answer (table : Table) : (q : Query) → Except Failure q.Answer
  | .classify path => do
    table.check .classify path
    return table.kind path
  | .list path => do
    table.check .list path
    return table.names path
  | .same a b => do
    table.check .same a
    table.check .same b
    return decide (table.contents? a = table.contents? b)

def fileSystem (table : Table) : FileSystem Unit := .ofAnswers table.answer

end Table

end TreePlan

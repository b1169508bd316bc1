import TreePlan.Path

/-!
# Disks

A disk holds directories, files and symbolic links. Each node has one location, the names
on the way to it from the root; the text of a path leads to a location only through the
links and `..` on its way (see `TreePlan.Disk.Resolve`).
-/

namespace TreePlan

/-- Where a node is: the names from the root down to it, the last one first. -/
abbrev Location := List Name

inductive Disk.Node where
  | directory
  | file (contents : Bytes)
  | link (target : Path)
  deriving DecidableEq, Repr

/-- The nodes of a disk apart from the root. -/
structure Disk where
  nodes : List (Location × Disk.Node) := []
  deriving DecidableEq, Repr

namespace Disk

/-- What is at a location. The root is always a directory. -/
def node? (disk : Disk) : Location → Option Node
  | [] => some .directory
  | location@(_ :: _) => disk.nodes.lookup location

/-- The disk with a node at a location, in place of any other. -/
def insert (disk : Disk) (location : Location) (node : Node) : Disk where
  nodes := disk.nodes.filter (fun entry => entry.1 != location) ++ [(location, node)]

/-- The disk without a location and all that is below it. -/
def erase (disk : Disk) (location : Location) : Disk where
  nodes := disk.nodes.filter fun entry => !location.isSuffixOf entry.1

def names (disk : Disk) (location : Location) : List Name :=
  disk.nodes.filterMap fun
    | (name :: above, _) => if above = location then some name else none
    | ([], _) => none

/-- The absolute path of a location that goes through no link. -/
def pathOf (location : Location) : Path :=
  if location = [] then ⟨[Bytes.slash]⟩
  else ⟨location.reverse.flatMap fun name => Bytes.slash :: name⟩

end Disk

end TreePlan

import TreePlan.Disk
import TreePlan.Failure

/-!
# Resolving paths

How the text of a path leads to a location: from the root or from a directory to start in,
one step for each component. `..` goes to the directory above in the tree, not to the text
in front. A link on the way is replaced by its target; a link at the end only where it is
to be followed. At most `maxLinks` links are followed in one resolution, so a cycle of links
is an error and not a loop.
-/

namespace TreePlan.Disk

/-- How many links one resolution follows. -/
def maxLinks : Nat := 40

def maxName : Nat := 255

/-- The length from which on a path is too long to be looked at. -/
def maxPath : Nat := 4096

/-- One step of a path: the directory above, or an entry. Staying in place is a step too,
since it is only possible in a directory. -/
inductive Step where
  | stay
  | up
  | into (name : Name)
  deriving DecidableEq, Repr

/-- The steps a text stands for. A separator at the end stays in the directory it demands. -/
def steps (bytes : Bytes) : List Step :=
  let named := (Path.pieces bytes).filter (· ≠ [])
  let ahead := named.map fun piece =>
    if piece = [Bytes.dot] then .stay
    else if piece = [Bytes.dot, Bytes.dot] then .up
    else .into piece
  if bytes.getLast? = some Bytes.slash then ahead ++ [.stay] else ahead

def startOf (path : Path) (here : Location) : Location := if path.isAbsolute then [] else here

/-- Takes the steps that are left from the directory `here`, following at most `links` links. -/
def follow (disk : Disk) (followLast : Bool) (links : Nat) (here : Location) :
    List Step → Except OsError Location
  | [] => if (disk.node? here).isSome then .ok here else .error .noEntry
  | step :: rest =>
    match disk.node? here with
    | none => .error .noEntry
    | some (.file _) | some (.link _) => .error .notDirectory
    | some .directory =>
      match step with
      | .stay => follow disk followLast links here rest
      | .up => follow disk followLast links here.tail rest  -- the root is above itself
      | .into name =>
        if maxName < name.length then .error .nameTooLong
        else
          match disk.node? (name :: here) with
          | none => .error .noEntry
          | some .directory | some (.file _) =>
            follow disk followLast links (name :: here) rest
          | some (.link target) =>
            if rest = [] && !followLast then .ok (name :: here)
            else
              match links with
              | 0 => .error .linkLoop
              | links + 1 =>
                -- what is left is looked for behind the target, which counts from where the link
                -- is
                follow disk followLast links (startOf target here) (steps target.bytes ++ rest)
  termination_by ahead => (links, ahead.length)

/-- The location a path leads to from the directory `here`. The last component is followed
if it is a link only where `followLast` says so. -/
def resolve (disk : Disk) (here : Location) (followLast : Bool) (path : Path) :
    Except OsError Location :=
  if path.bytes.contains 0 then .error .nulByte
  else if path.bytes = [] then .error .noEntry
  else if maxPath ≤ path.bytes.length then .error .nameTooLong
  else follow disk followLast maxLinks (startOf path here) (steps path.bytes)

def find (disk : Disk) (here : Location) (path : Path) : Except OsError (Location × Node) := do
  let location ← disk.resolve here true path
  match disk.node? location with
  | some node => .ok (location, node)
  | none => .error .noEntry

end TreePlan.Disk

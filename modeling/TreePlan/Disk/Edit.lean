import TreePlan.Disk.Resolve

/-!
# Editing disks

Making and removing nodes by path, from a working directory. Directories that are missing on
the way to a new node are made first. Links are followed on the way, and at the end too
where a directory or a file is to be made; removing takes away the link itself.
-/

namespace TreePlan.Disk

/-- Whether a node can stand where another one is already. -/
def Node.replaces : (new old : Node) → Bool
  | .directory, .directory => true
  | .file _, .file _ => true
  | _, _ => false

/-- Whether a link in the place of a new node is followed. -/
def Node.followsLink : Node → Bool
  | .link _ => false
  | .directory | .file _ => true

/-- Takes the steps to a new node from the directory `here`, making directories where there
is nothing. -/
def settle (disk : Disk) (new : Node) (links : Nat) (here : Location) :
    List Step → Except OsError Disk
  | [] =>
    match disk.node? here with
    | none => .ok (disk.insert here new)
    | some old =>
      if new.replaces old then .ok (disk.insert here new) else .error .entryExists
  | step :: rest =>
    match disk.node? here with
    | some (.file _) | some (.link _) => .error .notDirectory
    | node =>
      let disk := if node.isNone then disk.insert here .directory else disk
      match step with
      | .stay => settle disk new links here rest
      | .up => settle disk new links here.tail rest
      | .into name =>
        if maxName < name.length then .error .nameTooLong
        else
          match disk.node? (name :: here) with
          | some (.link target) =>
            if rest = [] && !new.followsLink then .error .entryExists
            else
              match links with
              | 0 => .error .linkLoop
              | links + 1 =>
                settle disk new links (startOf target here) (steps target.bytes ++ rest)
          | _ => settle disk new links (name :: here) rest
  termination_by ahead => (links, ahead.length)

def make (disk : Disk) (here : Location) (path : Path) (new : Node) : Except OsError Disk :=
  if path.bytes.contains 0 then .error .nulByte
  else settle disk new maxLinks (startOf path here) (steps path.bytes)

/-- The disk without the node at a path and all that is below it; nothing there is fine. -/
def remove (disk : Disk) (here : Location) (path : Path) : Disk :=
  match disk.resolve here false path with
  | .ok location => disk.erase location
  | .error _ => disk

end TreePlan.Disk

import TreePlan.Pair
import TreePlan.Shell

/-!
# Commands

The commands of a plan, each with the words of its command line:

| command   | line                               |
|-----------|------------------------------------|
| `remove`  | `rm PATH`, `rm -r PATH`            |
| `copy`    | `cp -f FROM TO`                    |
| `mkdir`   | `mkdir PATH`                       |
| `delete`  | `svn delete PATH...`               |
| `commit`  | `svn commit -m MESSAGE PATH...`    |
| `add`     | `svn add --depth=empty PATH...`    |

The first three change files, one path each; the others tell the version control about many
paths at once.
-/

namespace TreePlan

inductive Command where
  | remove (path : Path) (recursive : Bool)
  | copy (source target : Path)
  | mkdir (path : Path)
  | delete (paths : List Path)
  | commit (message : String) (paths : List Path)
  | add (paths : List Path)
  deriving DecidableEq, Repr, Inhabited

namespace Command

/-- The words of the command line, the program first. -/
def words : Command → List String
  | .remove path false => ["rm", path.shown]
  | .remove path true => ["rm", "-r", path.shown]
  | .copy source target => ["cp", "-f", source.shown, target.shown]
  | .mkdir path => ["mkdir", path.shown]
  | .delete paths => ["svn", "delete"] ++ paths.map Path.shown
  | .commit message paths => ["svn", "commit", "-m", message] ++ paths.map Path.shown
  | .add paths => ["svn", "add", "--depth=empty"] ++ paths.map Path.shown

def line (command : Command) : String := Shell.line command.words

def isVersionControl : Command → Bool
  | .remove .. | .copy .. | .mkdir .. => false
  | .delete .. | .commit .. | .add .. => true

/-- The paths a command names, in the order in which its line holds them. -/
def paths : Command → List Path
  | .remove path _ => [path]
  | .copy source target => [source, target]
  | .mkdir path => [path]
  | .delete paths | .commit _ paths | .add paths => paths

def scriptLine (command : Command) : Bytes := Bytes.ofString command.line ++ [0x0A]

end Command

/-- The script of a list of commands: their lines in order. -/
def script (commands : List Command) : Bytes := commands.flatMap Command.scriptLine

end TreePlan

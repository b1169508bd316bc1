import TreePlan.Cli.Grid
import TreePlan.Cli.Invocation
import TreePlan.Config.Failure
import TreePlan.Status

/-!
# What a run shows

The texts for the results of both commands, as lines for people or as documents.
-/

namespace TreePlan.Cli

/-- Lines, each with its end. -/
def textOf (lines : List String) : String := String.join (lines.map (· ++ "\n"))

/-- What is said about a plan besides its commands. -/
def summary (report : Report) : List String :=
  if report.commands = 0 then ["✓ snapshot is up to date"]
  else
    s!"✎ {report.commands} commands ({report.adds.size} adds, {report.deletes.size} deletes)" ::
      (if report.conflict then
        ["! file/directory type change: deletions are committed before adds"]
      else [])

def planDocument? (plan : Plan) : Option Json := do
  return .record
    [("commands", .list (← plan.commands.toList.mapM Command.encodeWithLine?)),
     ("report", ← plan.report.encode?)]

def statusDocument (rows : List PairStatus) : Json :=
  .record
    [("up_to_date", .bool (!rows.any PairStatus.pending)),
     ("conflict", .bool (rows.any (·.conflict))),
     ("pairs", .list (rows.map PairStatus.encode))]

def statusTitles : List String :=
  ["", "source", "destination", "copy", "rm", "mkdir", "svn add", "svn delete"]

def statusCells (row : PairStatus) : List String :=
  ["■", row.source, row.destination] ++
    [row.copies, row.removes, row.mkdirs, row.adds, row.deletes].map Nat.repr

def statusLines (rows : List PairStatus) : List String :=
  let pending := rows.countP PairStatus.pending
  [s!"{programName} v{programVersion} | {rows.length} pairs | {pending} pending"]
    ++ Grid.lines statusTitles (rows.map statusCells)
    ++ (if rows.any (·.conflict) then
        ["Type conflicts found: deletions must be committed before adds."] else [])
    ++ (if 0 < pending then ["Run 'snapsync plan' to print the commands."] else [])

/-! ### Complaints -/

/-- Why a run failed: what it was doing, and the causes from there on down. -/
structure Complaint where
  doing : String
  causes : List String
  deriving DecidableEq, Repr

/-- A text with `first` in front of its first line and `other` in front of any other. -/
def indent (first other text : String) : String :=
  first ++ ("\n" ++ other).intercalate ((text.toList.splitOn '\n').map String.ofList)

/-- A number aligned to the right. -/
def aligned (n : Nat) : String :=
  let digits := Nat.repr n
  String.ofList (List.replicate (5 - digits.length) ' ') ++ digits

/-- The text of a complaint. The causes are numbered if there are several. -/
def Complaint.text (complaint : Complaint) : String :=
  let causes := match complaint.causes with
    | [] => ""
    | [cause] => "\n\nCaused by:\n" ++ indent "    " "    " cause
    | several =>
      "\n\nCaused by:\n" ++ "\n".intercalate
        (several.mapIdx fun n cause => indent (aligned n ++ ": ") "       " cause)
  s!"Error: {complaint.doing}{causes}\n"

/-- The causes from a failure of a walk on down. -/
def walkCauses (failure : Failure) : List String := failure.message :: failure.cause?.toList

/-- The causes from a failure of loading on down. -/
def loadCauses (failure : Config.Failure) : List String :=
  failure.message :: failure.cause?.toList

/-! ### Help -/

def optionLines (verb : Verb) : List String :=
  let json := match verb with
    | .plan => "Emit machine-readable JSON instead of a shell script"
    | .status => "Emit machine-readable JSON"
  ["  -c, --config <CONFIG>                  YAML config listing source/destination pairs",
   "      --pair <SRC=DST>                   Reconcile SRC into DST instead of the configured pairs",
   "      --commit-message <COMMIT_MESSAGE>  Message for the commit that isolates deletions",
   "      --json                             " ++ json,
   "  -v, --verbose                          Log each classified path to stderr",
   "  -h, --help                             Print help"]

def aboutVerb : Verb → String
  | .plan => "Print the shell and svn commands needed to update the snapshot"
  | .status => "Summarise pending changes per source/destination pair"

def Verb.name : Verb → String
  | .plan => "plan"
  | .status => "status"

def helpLines : Option Verb → List String
  | none =>
    [description, "",
     s!"Usage: {programName} [OPTIONS] <COMMAND>", "",
     "Commands:",
     "  plan    " ++ aboutVerb .plan,
     "  status  " ++ aboutVerb .status,
     "  help    Print this message or the help of the given subcommand(s)", "",
     "Options:",
     "  -v, --verbose  Log each classified path to stderr",
     "  -h, --help     Print help",
     "  -V, --version  Print version"]
  | some verb =>
    [aboutVerb verb, "", s!"Usage: {programName} {verb.name} [OPTIONS]", "", "Options:"]
      ++ optionLines verb

/-- What is said about arguments that ask for nothing. -/
def usageLines : UsageError → List String
  | .nothingAsked => helpLines none
  | fault => [fault.message, "", "For more information, try '--help'."]

end TreePlan.Cli

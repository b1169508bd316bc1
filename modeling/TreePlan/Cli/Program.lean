import TreePlan.Cli.LogFilter
import TreePlan.Cli.Report
import TreePlan.Config.Load

/-!
# The program

What a run of the program does, over any host: something that has a working directory,
files, and two outputs. Nothing is ever changed on the host; `plan` prints the commands that
would bring the destinations in line, `status` counts them.

The lines of a plan are printed as they are decided on, so those before a failure are there
even if the run fails. A document is printed only once it is complete.
-/

namespace TreePlan.Cli

/-- What a run of the program runs on. -/
structure Host (m : Type → Type) where
  workingDirectory : m (Except OsError Path)
  files : Config.Files m
  answer : (q : Query) → m (Except Failure q.Answer)
  print : Bytes → m (Except EmitError Unit)  -- prints to the output for results
  tell : String → m Unit  -- prints to the output for messages
  stamp : m String  -- the time, as it stands in front of a log record

/-- How a run ends for whoever started it. -/
inductive ExitCode where
  | success
  | failure
  | usage  -- the arguments ask for nothing
  deriving DecidableEq, Repr

/-- The number of an exit code. -/
def ExitCode.number : ExitCode → UInt32
  | .success => 0
  | .failure => 1
  | .usage => 2

section
variable {m : Type → Type} [Monad m] (host : Host m)

/-- How a host replies in a walk whose commands go to `accept`. -/
def reply (filter : LogFilter) (accept : Command → m (Except EmitError Unit)) :
    (r : Request) → StateT Session m (Except Failure r.Reply)
  | .ask query => host.answer query
  | .emit command => do
    match ← accept command with
    | .ok () =>
      modify Session.countEmitted
      return .ok ()
    | .error cause => return .error (.emit cause)
  | .log record => do
    if filter.allows walkPart record.level then
      host.tell (logLine (← host.stamp) record ++ "\n")
    return .ok ()
  | .note n => do
    modify (·.note n)
    return .ok ()
  | .review => do return .ok (← get)

/-- Leads a dialogue that emits nothing. -/
def converse {α : Type} (filter : LogFilter) (d : Dialogue α) : m (Except Failure α) :=
  (d.carryOut (reply host filter fun _ => pure (.ok ()))).run' {}

def printText (text : String) : m (Except Complaint Unit) := do
  match ← host.print (Bytes.ofString text) with
  | .ok () => return .ok ()
  | .error cause => return .error ⟨cause.message, []⟩

/-- The configuration that an invocation asks for. Pairs and message of the invocation take
the place of those in the file, which has to be right all the same. -/
def configure (invocation : Invocation) : m (Except Complaint Config) := do
  let loaded ← match invocation.config with
    | some path => do
      let outcome ← Config.load host.files path
      pure (outcome.mapError fun failure =>
        ⟨s!"failed to load config {path.shown}", loadCauses failure⟩)
    | none => do
      match ← host.workingDirectory with
      | .error cause => pure (.error ⟨"could not determine working directory", [cause.message]⟩)
      | .ok directory =>
        let outcome ← Config.loadOrBuiltIn host.files directory
        pure (outcome.mapError fun failure =>
          Complaint.mk "failed to load snapsync.yaml" (loadCauses failure))
  return loaded.map fun config =>
    { config with
      pairs := if invocation.pairs = [] then config.pairs else invocation.pairs
      commitMessage := invocation.commitMessage.getD config.commitMessage }

def planComplaint (failure : Failure) : Complaint := ⟨"plan failed", walkCauses failure⟩

def printPlan (filter : LogFilter) (config : Config) : m (Except Complaint Unit) := do
  let print (command : Command) : m (Except EmitError Unit) := host.print command.scriptLine
  let walked := (sync config.rules Walk.ampleBudget config.pairs).carryOut (reply host filter print)
  match ← walked.run' {} with
  | .error failure => return .error (planComplaint failure)
  | .ok report =>
    host.tell (textOf (summary report))
    return .ok ()

def printPlanDocument (filter : LogFilter) (config : Config) : m (Except Complaint Unit) := do
  match ← converse host filter (plan config.rules Walk.ampleBudget config.pairs) with
  | .error failure => return .error (planComplaint failure)
  | .ok plan =>
    match planDocument? plan with
    | some document => printText host (document.render ++ "\n")
    | none => return .error ⟨unencodable, []⟩

def printStatus (filter : LogFilter) (config : Config) (json : Bool) :
    m (Except Complaint Unit) := do
  let rows := statusRows (reply host filter fun _ => pure (.ok ())) config.rules
    Walk.ampleBudget config.pairs
  match ← rows.run' {} with
  | .error (pair, failure) =>
    return .error ⟨s!"status failed for {pair.shown}", walkCauses failure⟩
  | .ok rows =>
    if json then printText host ((statusDocument rows).render ++ "\n")
    else printText host (textOf (statusLines rows))

def invoke (filter : LogFilter) (invocation : Invocation) : m (Except Complaint Unit) := do
  match ← configure host invocation with
  | .error complaint => return .error complaint
  | .ok config =>
    match invocation.verb with
    | .status => printStatus host filter config invocation.json
    | .plan =>
      if invocation.json then printPlanDocument host filter config
      else printPlan host filter config

/-- Runs the program with the given arguments; `wantedLog` is the log filter asked for from
outside. -/
def run (wantedLog : Option Bytes) (arguments : List Bytes) : m ExitCode := do
  let finish (outcome : Except Complaint Unit) : m ExitCode := do
    match outcome with
    | .ok () => return .success
    | .error complaint =>
      host.tell complaint.text
      return .failure
  match Wish.ofArguments arguments with
  | .error fault =>
    host.tell (textOf (usageLines fault))
    return .usage
  | .ok .version => finish (← printText host (textOf [s!"{programName} {programVersion}"]))
  | .ok (.help about) => finish (← printText host (textOf (helpLines about)))
  | .ok (.run invocation) =>
    finish (← invoke host (.choose wantedLog invocation.verbose) invocation)

end

end TreePlan.Cli

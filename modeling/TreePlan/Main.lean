import TreePlan.Cli.Program
import TreePlan.Contents

/-!
# The program on a real system

The host that the program runs on when it is started: the working directory, the files and
the standard outputs of the process. Nothing is decided here.
-/

namespace TreePlan

/-- The number of a refusal, which comes with either sign. -/
def unsigned (code : UInt32) : UInt32 := min code (0 - code)

/-- The number and the text of a refusal by the system. -/
def refusal? : IO.Error → Option (UInt32 × String)
  | .noFileOrDirectory _ code text
  | .alreadyExists _ code text
  | .invalidArgument _ code text
  | .permissionDenied _ code text
  | .resourceExhausted _ code text
  | .inappropriateType _ code text
  | .noSuchThing _ code text
  | .interrupted _ code text
  | .otherError code text
  | .resourceBusy code text
  | .resourceVanished code text
  | .unsupportedOperation code text
  | .hardwareFault code text
  | .unsatisfiedConstraints code text
  | .illegalOperation code text
  | .protocolError code text
  | .timeExpired code text => some (unsigned code, text)
  | .unexpectedEof | .userError _ => none

def causeOf (error : IO.Error) : OsError :=
  match refusal? error with
  | some (2, _) => .noEntry
  | some (17, _) => .entryExists
  | some (20, _) => .notDirectory
  | some (21, _) => .isDirectory
  | some (36, _) => .nameTooLong
  | some (40, _) => .linkLoop
  | some (code, text) => .other s!"{text} (os error {code})"
  | none => .other (toString error)

/-- Does something with the text of a path, if the system can be given it. -/
def withText {α : Type} (path : Path) (act : String → IO α) : IO (Except OsError α) := do
  if path.bytes.contains 0 then return .error .nulByte
  match path.text? with
  | none => return .error .notText
  | some "" => return .error .noEntry
  | some text =>
    try
      return .ok (← act text)
    catch error =>
      return .error (causeOf error)

/-- The length of what is at a path, and whether it is a directory; links are followed. -/
def statusOf (path : Path) : IO (Except OsError (Nat × Bool)) :=
  withText path fun text => do
    let data ← ((← IO.currentDir) / text).metadata
    return (data.byteSize.toNat, data.type matches .dir)

def isLink (path : Path) : IO Bool := do
  let found ← withText path fun text => do
    let data ← ((← IO.currentDir) / text).symlinkMetadata
    return data.type matches .symlink
  return found matches .ok true

def contentsOf (path : Path) : IO (Except OsError Bytes) :=
  withText path fun text => do return (← IO.FS.readBinFile text).toList

/-- The kind of what is at a path. A link that leads nowhere is there all the same. -/
def classifyPath (path : Path) : IO (Except Failure Kind) := do
  match ← statusOf path with
  | .ok (_, true) => return .ok .directory
  | .ok (_, false) => return .ok .file
  | .error .noEntry => return if ← isLink path then .error (.brokenLink path) else .ok .missing
  | .error .notDirectory => return .ok .missing
  | .error cause => return .error (.io path cause)

def listPath (path : Path) : IO (Except Failure (List Name)) := do
  let listed ← withText path fun text => do
    return (← ((← IO.currentDir) / text).readDir).toList.map fun entry =>
      Bytes.ofString entry.fileName
  return listed.mapError (.io path)

/-- Whether two files hold the same bytes. Files of different lengths are not read. -/
def samePaths (a b : Path) : IO (Except Failure Bool) := do
  match ← statusOf a, ← statusOf b with
  | .error cause, _ => return .error (.io a cause)
  | .ok _, .error cause => return .error (.io b cause)
  | .ok (lengthA, _), .ok (lengthB, _) =>
    if lengthA ≠ lengthB then return .ok false
    match ← contentsOf a, ← contentsOf b with
    | .error cause, _ => return .error (.io a cause)
    | .ok _, .error cause => return .error (.io b cause)
    | .ok contentsA, .ok contentsB => return .ok (Contents.same contentsA contentsB)

def process : Cli.Host IO where
  workingDirectory := do
    try
      return .ok (.ofString (← IO.currentDir).toString)
    catch error =>
      return .error (causeOf error)
  files :=
    { present := fun path => do return (← statusOf path).isOk
      contents := contentsOf }
  answer
    | .classify path => classifyPath path
    | .list path => listPath path
    | .same a b => samePaths a b
  print bytes := do
    try
      let out ← IO.getStdout
      out.write ⟨bytes.toArray⟩
      out.flush
      return .ok ()
    catch error =>
      return .error (.other (causeOf error).message)
  tell text := do (← IO.getStderr).putStr text
  stamp := do
    let millis := (← IO.monoMsNow)
    return s!"{millis / 1000}.{millis % 1000}s"

end TreePlan

def main (arguments : List String) : IO UInt32 := do
  let wantedLog ← IO.getEnv "RUST_LOG"
  let code ← TreePlan.Cli.run TreePlan.process (wantedLog.map TreePlan.Bytes.ofString)
    (arguments.map TreePlan.Bytes.ofString)
  return code.number

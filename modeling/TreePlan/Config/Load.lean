import TreePlan.Config.Decode

/-!
# Loading configurations

A configuration is loaded from a file, and relative pairs are taken from the directory of
that file, so a configuration means the same wherever it is loaded from.
-/

namespace TreePlan.Config

/-- How files are looked at and read. -/
structure Files (m : Type → Type) where
  present : Path → m Bool  -- whether there is anything at a path, links followed
  contents : Path → m (Except OsError Bytes)

/-- The configuration that the contents of the file at `path` say, its pairs as written. -/
def ofContents (path : Path) (contents : Bytes) : Except Failure Config :=
  match Utf8.decode? contents with
  | none => .error (.unreadable path .notText)
  | some text =>
    match ofDocument (Yaml.Document.ofText text) with
    | .error defect => .error (.defective path defect)
    | .ok config => .ok config

/-- A configuration read from `path`, its pairs taken from the directory of that file. One
without pairs is of no use. -/
def anchored (path : Path) (config : Config) : Except Failure Config :=
  if config.pairs = [] then .error (.noPairs path) else .ok (config.resolve path.directory)

def load {m : Type → Type} [Monad m] (files : Files m) (path : Path) :
    m (Except Failure Config) := do
  if !(← files.present path) then return .error (.notFound path)
  match ← files.contents path with
  | .error cause => return .error (.unreadable path cause)
  | .ok contents => return ofContents path contents >>= anchored path

/-- Loads the configuration of a directory, or the built-in one if it has none. -/
def loadOrBuiltIn {m : Type → Type} [Monad m] (files : Files m) (directory : Path) :
    m (Except Failure Config) := do
  let path := pathIn directory
  if ← files.present path then load files path else return .ok builtIn

end TreePlan.Config

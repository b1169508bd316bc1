import TreePlan.Walk

/-!
# Configurations

Which pairs are to be kept in step, and how the commands for the version control are worded.
A directory can hold its configuration in a file of a fixed name; without one the built-in
layout is used.
-/

namespace TreePlan

structure Config where
  pairs : List Pair
  commitMessage : String := "remove obsolete files from the snapshot tree"
  metadataNames : List String := [".svn"]
  deriving DecidableEq, Repr

namespace Config

/-- The layout of a release: documents, reports and one archive, published into a tree next
to the one that is built. -/
def builtIn : Config where
  pairs := ["doc", "reports", "prebake.zip"].map fun name =>
    ⟨.ofString ("code/out/" ++ name), .ofString ("../snapshot/" ++ name)⟩

instance : Inhabited Config := ⟨builtIn⟩

def rules (config : Config) : Rules where
  metadataNames := config.metadataNames.map Bytes.ofString
  commitMessage := config.commitMessage

/-- The name of the file that holds the configuration of its directory. -/
def fileName : Path := .ofString "snapsync.yaml"

def pathIn (directory : Path) : Path := directory.join fileName

/-- The configuration with all pairs taken from `base`. -/
def resolve (config : Config) (base : Path) : Config :=
  { config with pairs := config.pairs.map (·.resolve base) }

end Config

end TreePlan

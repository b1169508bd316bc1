/-!
# Kinds of nodes

What is found at one side of a pair. A walk decides by the kinds of the two sides alone.
-/

namespace TreePlan

/-- What is at a path: nothing, a directory, or anything else that exists. -/
inductive Kind where
  | missing
  | file
  | directory
  deriving DecidableEq, Repr, Inhabited

namespace Kind

def all : List Kind := [.missing, .file, .directory]

def name : Kind → String
  | .missing => "missing"
  | .file => "file"
  | .directory => "directory"

def ofName? (word : String) : Option Kind := all.find? (·.name == word)

/-- Each kind is read back from its word. -/
@[simp] theorem ofName?_name (k : Kind) : ofName? k.name = some k := by cases k <;> decide

end Kind

end TreePlan

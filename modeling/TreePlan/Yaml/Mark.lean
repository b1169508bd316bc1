/-!
# Places in a text

Where something stands in a document, and what is said when the document cannot be read on
from there.
-/

namespace TreePlan.Yaml

/-- A place in a text. All three numbers count from zero and count characters. -/
structure Mark where
  index : Nat := 0
  line : Nat := 0
  column : Nat := 0
  deriving DecidableEq, Repr, Inhabited

namespace Mark

def right (mark : Mark) : Mark := { mark with index := mark.index + 1, column := mark.column + 1 }

/-- The start of the next line, after a line break of `size` characters. -/
def nextLine (mark : Mark) (size : Nat) : Mark := ⟨mark.index + size, mark.line + 1, 0⟩

def isStart (mark : Mark) : Bool := mark.line = 0 && mark.column = 0

/-- The text for a place, for people, who count from one. -/
def text (mark : Mark) : String := s!"line {mark.line + 1} column {mark.column + 1}"

end Mark

structure Malformed where
  reason : String
  place : Mark
  deriving DecidableEq, Repr, Inhabited

def Malformed.message (fault : Malformed) : String := s!"{fault.reason} at {fault.place.text}"

end TreePlan.Yaml

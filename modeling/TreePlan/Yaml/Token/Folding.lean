import TreePlan.Yaml.Character

/-!
# Folding of lines

In most scalars a line end counts as a space and an empty line as a line end, and blanks
around line ends do not count at all. A `Folding` is the text of a scalar so far, together
with the gap behind it, which only counts once something follows.
-/

namespace TreePlan.Yaml

/-- The text of a scalar so far and the gap behind it. -/
structure Folding where
  text : List Char := []  -- the characters so far, the last one first
  /-- The blanks of the gap, the last one first, if the gap is within a line. -/
  blanks : List Char := []
  firstBreak : List Char := []  -- the first line end of the gap
  laterBreaks : List Char := []
  crossed : Bool := false  -- whether the gap goes over a line end
  deriving Repr

namespace Folding

/-- A blank in the gap; after a line end it is indentation. -/
def blank (folding : Folding) (c : Char) : Folding :=
  if folding.crossed then folding else { folding with blanks := c :: folding.blanks }

def newLine (folding : Folding) (lineEnd : List Char) : Folding :=
  if folding.crossed then { folding with laterBreaks := folding.laterBreaks ++ lineEnd }
  else { folding with blanks := [], firstBreak := lineEnd, crossed := true }

/-- A line end that does not count. -/
def escapedLine (folding : Folding) : Folding := { folding with crossed := true }

/-- What a gap over line ends counts as. -/
def joint (folding : Folding) : List Char :=
  if folding.firstBreak.head? = some '\n' then
    if folding.laterBreaks = [] then [' '] else folding.laterBreaks
  else folding.firstBreak ++ folding.laterBreaks

def settle (folding : Folding) : Folding where
  text :=
    if folding.crossed then folding.joint.reverse ++ folding.text
    else folding.blanks ++ folding.text

/-- The text with one more character, where there is no gap. -/
def push (folding : Folding) (c : Char) : Folding := { folding with text := c :: folding.text }

def value (folding : Folding) : List Char := folding.text.reverse

end Folding

end TreePlan.Yaml

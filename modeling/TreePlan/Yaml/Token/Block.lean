import TreePlan.Yaml.Cursor

/-!
# Block scalars

A scalar on lines of its own, below a header: `|` keeps its lines, `>` folds them. The first
line that is not empty sets the indentation, unless the header gives it; the header also
tells what becomes of the line ends at the end.
-/

namespace TreePlan.Yaml

/-- What becomes of the line ends at the end of a block scalar. -/
inductive Chomping where
  | strip  -- none is kept
  | clip  -- one is kept
  | keep  -- all are kept
  deriving DecidableEq, Repr

/-- The header of a block scalar. -/
structure BlockHeader where
  chomping : Chomping := .clip
  indent : Nat := 0  -- the indentation it gives, 0 for none

/-- The chomping that a character of a header asks for. -/
def chomping? (c : Char) : Option Chomping :=
  if c = '+' then some .keep else if c = '-' then some .strip else none

def Cursor.headerChomping (cursor : Cursor) (header : BlockHeader) : BlockHeader × Cursor :=
  match cursor.rest.head?.bind chomping? with
  | some chomping => ({ header with chomping }, cursor.skip)
  | none => (header, cursor)

def Cursor.headerIndent (cursor : Cursor) (header : BlockHeader) :
    Except Malformed (BlockHeader × Cursor) :=
  match cursor.rest with
  | c :: _ =>
    if c = '0' then cursor.fault "found an indentation indicator equal to 0"
    else if isDigit c then .ok ({ header with indent := c.toNat - 48 }, cursor.skip)
    else .ok (header, cursor)
  | [] => .ok (header, cursor)

/-- Reads a header, whose two parts stand in either order. -/
def Cursor.blockHeader (cursor : Cursor) : Except Malformed (BlockHeader × Cursor) :=
  if (cursor.rest.head?.bind chomping?).isSome then
    let (header, after) := cursor.headerChomping {}
    after.headerIndent header
  else do
    let (header, after) ← cursor.headerIndent {}
    if header.indent = 0 then .ok (header, after) else .ok (after.headerChomping header)

/-- What stands between two lines of a block scalar. -/
structure BlockGap where
  breaks : List Char  -- the line ends of the empty lines
  widest : Nat
  stop : Mark  -- where the last line end is
  after : Cursor

/-- Goes past empty lines and the indentation of the next line, which is at most `indent`
wide, or of any width where `indent` is 0. -/
def blockGapFrom (indent : Nat) (breaks : List Char) (widest : Nat) (stop mark : Mark) :
    List Char → Except Malformed BlockGap
  | [] => .ok ⟨breaks, max widest mark.column, stop, ⟨[], mark⟩⟩
  | '\r' :: '\n' :: rest =>
    blockGapFrom indent (breaks ++ ['\n']) (max widest mark.column) (mark.nextLine 2)
      (mark.nextLine 2) rest
  | c :: rest =>
    let inIndent := indent = 0 || mark.column < indent
    if inIndent && c = ' ' then blockGapFrom indent breaks widest stop mark.right rest
    else if inIndent && c = '\t' then
      .error ⟨"found a tab character where an indentation space is expected", mark⟩
    else if isBreak c then
      blockGapFrom indent (breaks ++ [foldBreak c]) (max widest mark.column) (mark.nextLine 1)
        (mark.nextLine 1) rest
    else .ok ⟨breaks, max widest mark.column, stop, ⟨c :: rest, mark⟩⟩

def Cursor.blockGap (cursor : Cursor) (indent : Nat) : Except Malformed BlockGap :=
  blockGapFrom indent [] 0 cursor.mark cursor.mark cursor.rest

structure BlockText where
  text : List Char := []
  lineEnd : List Char := []  -- the line end after the last line
  breaks : List Char  -- the line ends of the empty lines after it
  indented : Bool := false  -- whether the last line started with a blank; such lines are not folded

/-- The lines with the gap in front of a next line, which starts with a blank if `blank`. -/
def BlockText.settle (lines : BlockText) (folded blank : Bool) : List Char :=
  let first :=
    if folded && lines.lineEnd.head? = some '\n' && !lines.indented && !blank then
      if lines.breaks = [] then [' '] else []
    else lines.lineEnd
  lines.text ++ first ++ lines.breaks

/-- Reads the lines that are indented by `indent`; each is at least one character long, so
`fuel` can be the number of characters left. -/
def blockLines (folded : Bool) (indent : Nat) :
    (fuel : Nat) → BlockText → (stop : Mark) → Cursor → Except Malformed (BlockText × Mark × Cursor)
  | 0, lines, stop, cursor => .ok (lines, stop, cursor)
  | fuel + 1, lines, stop, cursor =>
    -- A line that starts further to the left is behind the scalar.
    if cursor.rest = [] || cursor.mark.column ≠ indent then .ok (lines, stop, cursor)
    else do
      let blank := cursor.rest.head?.any isBlank
      let (line, atEnd) := cursor.span (!isBreak ·)
      let (lineEnd, next) := atEnd.takeBreak
      let gap ← next.blockGap indent
      let text := lines.settle folded blank ++ line
      blockLines folded indent fuel ⟨text, lineEnd, gap.breaks, blank⟩ gap.stop gap.after

/-- Reads a block scalar that starts at the cursor. Its lines are indented to `margin` at
least. Yields its text, its end and what is left. -/
def Cursor.blockScalar (cursor : Cursor) (folded : Bool) (margin : Nat) :
    Except Malformed (List Char × Mark × Cursor) := do
  let (header, afterHeader) ← cursor.skip.blockHeader
  let start ← afterHeader.endLine
  -- The header counts from the margin of the block around; without one the first lines decide.
  let given := if header.indent = 0 then 0 else margin - 1 + header.indent
  let gap ← start.blockGap given
  let indent := if given = 0 then max (max gap.widest margin) 1 else given
  let (lines, stop, after) ←
    blockLines folded indent (gap.after.rest.length + 1) ⟨[], [], gap.breaks, false⟩ gap.stop
      gap.after
  let text := match header.chomping with
    | .strip => lines.text
    | .clip => lines.text ++ lines.lineEnd
    | .keep => lines.text ++ lines.lineEnd ++ lines.breaks
  return (text, stop, after)

end TreePlan.Yaml

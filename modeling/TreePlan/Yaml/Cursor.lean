import TreePlan.Bytes
import TreePlan.Yaml.Character
import TreePlan.Yaml.Mark

/-!
# Reading positions

What is left of a text, and where in the text that is.
-/

namespace TreePlan.Yaml

/-- The rest of a text and its place. -/
structure Cursor where
  rest : List Char
  mark : Mark := {}
  deriving Repr, Inhabited

namespace Cursor

def sees (cursor : Cursor) (c : Char) : Bool := cursor.rest.head? = some c

/-- Goes past one character that does not end a line. -/
def skip (cursor : Cursor) : Cursor := ⟨cursor.rest.tail, cursor.mark.right⟩

/-- Goes past characters as long as they fulfil `p`, which no line end does; yields them. -/
def span (p : Char → Bool) (cursor : Cursor) : List Char × Cursor :=
  go cursor.rest cursor.mark
where
  /-- Works off what is left of a text. -/
  go : List Char → Mark → List Char × Cursor
    | [], mark => ([], ⟨[], mark⟩)
    | c :: rest, mark =>
      if p c then
        let (taken, after) := go rest mark.right
        (c :: taken, after)
      else ([], ⟨c :: rest, mark⟩)

/-- Goes past characters as long as they fulfil `p`, which no line end does. -/
def skipWhile (p : Char → Bool) (cursor : Cursor) : Cursor := (cursor.span p).2

/-- Goes past a line end, if one is next; a carriage return and the line feed after it are
one. Yields the line end as it counts in a value. -/
def takeBreak (cursor : Cursor) : List Char × Cursor :=
  match cursor.rest with
  | '\r' :: '\n' :: rest => (['\n'], ⟨rest, cursor.mark.nextLine 2⟩)
  | c :: rest =>
    if isBreak c then ([foldBreak c], ⟨rest, cursor.mark.nextLine 1⟩) else ([], cursor)
  | [] => ([], cursor)

def skipBreak (cursor : Cursor) : Cursor := cursor.takeBreak.2

def skipComment (cursor : Cursor) : Cursor :=
  if cursor.sees '#' then cursor.skipWhile (!isBreak ·) else cursor

def fault {α : Type} (cursor : Cursor) (reason : String) : Except Malformed α :=
  .error ⟨reason, cursor.mark⟩

/-- What has to stand at the end of a line that holds nothing more: blanks, a comment, and
the line end. -/
def endLine (cursor : Cursor) : Except Malformed Cursor :=
  let after := (cursor.skipWhile isBlank).skipComment
  if atLineEnd after.rest then .ok after.skipBreak
  else after.fault "did not find expected comment or line break"

end Cursor

end TreePlan.Yaml

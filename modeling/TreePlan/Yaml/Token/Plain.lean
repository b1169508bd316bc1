import TreePlan.Yaml.Cursor
import TreePlan.Yaml.Token.Folding

/-!
# Plain scalars

A scalar without quotes ends where its line, its block or its collection does: before `: `,
before a comment, at a line that is not indented enough, and within brackets also at the
characters that make up the collection.
-/

namespace TreePlan.Yaml

structure PlainScalar where
  text : List Char
  stop : Mark
  crossed : Bool  -- whether the gap behind it goes over a line end
  after : Cursor

/-- The characters that separate the parts of a collection in brackets. -/
def isFlowMark (c : Char) : Bool := c = ',' || c = '[' || c = ']' || c = '\x7b' || c = '\x7d'

/-- Reads a plain scalar on from `mark`. Lines have to start at column `margin`, unless the
scalar stands within brackets (`flow`); `gap` tells whether white space was just passed. -/
def plainFrom (flow : Bool) (margin : Nat) (folding : Folding) (gap : Bool) (stop mark : Mark) :
    List Char → Except Malformed PlainScalar
  | [] => .ok ⟨folding.value, stop, folding.crossed, ⟨[], mark⟩⟩
  | '\r' :: '\n' :: rest =>
    plainFrom flow margin (folding.newLine ['\n']) true stop (mark.nextLine 2) rest
  | c :: rest =>
    let ended : Except Malformed PlainScalar :=
      .ok ⟨folding.value, stop, folding.crossed, ⟨c :: rest, mark⟩⟩
    if isBreak c then
      plainFrom flow margin (folding.newLine [foldBreak c]) true stop (mark.nextLine 1) rest
    else if isBlank c then
      if folding.crossed && mark.column < margin && c = '\t' then
        .error ⟨"found a tab character that violates indentation", mark⟩
      else plainFrom flow margin (folding.blank c) true stop mark.right rest
    else if gap && !flow && mark.column < margin then ended
    else if gap && mark.column = 0 && atDocumentMark (c :: rest) then ended
    else if gap && c = '#' then ended
    else if flow && c = ':' && rest.head?.any (fun d => isFlowMark d || d = '?') then
      .error ⟨"found unexpected ':'", mark⟩
    else if (c = ':' && atGap rest) || (flow && isFlowMark c) then ended
    else plainFrom flow margin (folding.settle.push c) false mark.right mark.right rest

def Cursor.plainScalar (cursor : Cursor) (flow : Bool) (margin : Nat) :
    Except Malformed PlainScalar :=
  plainFrom flow margin {} false cursor.mark cursor.mark cursor.rest

end TreePlan.Yaml

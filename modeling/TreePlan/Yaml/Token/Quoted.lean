import TreePlan.Yaml.Cursor
import TreePlan.Yaml.Token.Folding

/-!
# Quoted scalars

Between single quotes only the quote itself has to be written specially, twice; between
double quotes a backslash starts an escape. Line ends are folded in both.
-/

namespace TreePlan.Yaml

/-- The character that a backslash and one more character stand for. -/
def escaped? : Char → Option Char
  | '0' => some '\x00'
  | 'a' => some '\x07'
  | 'b' => some '\x08'
  | 't' => some '\t'
  | '\t' => some '\t'
  | 'n' => some '\n'
  | 'v' => some '\x0b'
  | 'f' => some '\x0c'
  | 'r' => some '\r'
  | 'e' => some '\x1b'
  | ' ' => some ' '
  | '"' => some '"'
  | '/' => some '/'
  | '\\' => some '\\'
  | 'N' => some '\u0085'
  | '_' => some '\u00a0'
  | 'L' => some '\u2028'
  | 'P' => some '\u2029'
  | _ => none

/-- How many hexadecimal digits follow a backslash and the character. -/
def codeLength? : Char → Option Nat
  | 'x' => some 2
  | 'u' => some 4
  | 'U' => some 8
  | _ => none

/-- The number that the first `count` characters are in hexadecimal, after `seen`. -/
def hexNumber? (seen : Nat) : (count : Nat) → List Char → Option Nat
  | 0, _ => some seen
  | _ + 1, [] => none
  | count + 1, c :: rest =>
    match hexValue? c with
    | some digit => hexNumber? (16 * seen + digit) count rest
    | none => none

def Mark.rightBy (mark : Mark) (count : Nat) : Mark :=
  { mark with index := mark.index + count, column := mark.column + count }

/-- Reads a quoted scalar on from `mark`, up to its closing quote. -/
def quotedFrom (single : Bool) (folding : Folding) (mark : Mark) :
    List Char → Except Malformed (List Char × Cursor)
  | [] => .error ⟨"found unexpected end of stream", mark⟩
  | c :: rest =>
    if isBreak c then
      if c = '\r' && rest.head? = some '\n' then
        quotedFrom single (folding.newLine ['\n']) (mark.nextLine 2) rest.tail
      else quotedFrom single (folding.newLine [foldBreak c]) (mark.nextLine 1) rest
    else if isBlank c then quotedFrom single (folding.blank c) mark.right rest
    else if mark.column = 0 && atDocumentMark (c :: rest) then
      .error ⟨"found unexpected document indicator", mark⟩
    else
      let settled := folding.settle
      if c = (if single then '\'' else '"') then
        -- In single quotes, two of them stand for one.
        if single && rest.head? = some '\'' then
          quotedFrom single (settled.push c) (mark.rightBy 2) rest.tail
        else .ok (settled.value, ⟨rest, mark.right⟩)
      else if single || c ≠ '\\' then quotedFrom single (settled.push c) mark.right rest
      else
        let e := rest.head?.getD '\x00'
        let after := rest.tail
        if rest = [] then .error ⟨"found unknown escape character", mark⟩
        -- An escaped line end joins two lines.
        else if e = '\r' && after.head? = some '\n' then
          quotedFrom single settled.escapedLine (mark.right.nextLine 2) after.tail
        else if isBreak e then
          quotedFrom single settled.escapedLine (mark.right.nextLine 1) after
        else
          match escaped? e, codeLength? e with
          | some meant, _ => quotedFrom single (settled.push meant) (mark.rightBy 2) after
          | none, some count =>
            match hexNumber? 0 count after with
            | none => .error ⟨"did not find expected hexadecimal number", mark⟩
            | some code =>
              if code.isValidChar then
                quotedFrom single (settled.push (Char.ofNat code)) (mark.rightBy (2 + count))
                  (after.drop count)
              else .error ⟨"found invalid Unicode character escape code", mark⟩
          | none, none => .error ⟨"found unknown escape character", mark⟩
  termination_by rest => rest.length
  decreasing_by
    all_goals
      simp only [List.length_cons, List.length_drop, List.length_tail]
      omega

def Cursor.quotedScalar (cursor : Cursor) (single : Bool) :
    Except Malformed (List Char × Cursor) :=
  quotedFrom single {} cursor.mark.right cursor.rest.tail

end TreePlan.Yaml

import TreePlan.Yaml.Cursor

/-!
# Names, tags and directives

The tokens whose text is a name: anchors and aliases, tags in their three forms, and the two
directives in front of a document.
-/

namespace TreePlan.Yaml

def isTagChar (inBrackets : Bool) (c : Char) : Bool :=
  isWord c || ";/?:@&=+$.!~*'()".toList.contains c || (inBrackets && ",[]".toList.contains c)

/-- How many bytes the character has whose first byte is `n`, 0 if there is none. -/
def encodedLength (n : Nat) : Nat :=
  if n < 0x80 then 1
  else if n < 0xC0 then 0
  else if n < 0xE0 then 2
  else if n < 0xF0 then 3
  else if n < 0xF8 then 4
  else 0

/-- Reads the text of a tag on from `mark`. `%` and two hexadecimal digits are one byte, and
the bytes of one character follow each other; `pending` of them are still to come. -/
def tagTextFrom (inBrackets : Bool) (seen : Bytes) (pending : Nat) (mark : Mark) :
    List Char → Except Malformed (Bytes × Cursor)
  | '%' :: a :: b :: rest =>
    match hexValue? a, hexValue? b with
    | some high, some low =>
      let byte := 16 * high + low
      let here := mark.right.right.right
      if pending = 0 then
        if encodedLength byte = 0 then
          .error ⟨"found an incorrect leading UTF-8 octet", mark⟩
        else
          tagTextFrom inBrackets (seen ++ [UInt8.ofNat byte]) (encodedLength byte - 1) here rest
      else if byte / 64 = 2 then
        tagTextFrom inBrackets (seen ++ [UInt8.ofNat byte]) (pending - 1) here rest
      else .error ⟨"found an incorrect trailing UTF-8 octet", mark⟩
    | _, _ => .error ⟨"did not find URI escaped octet", mark⟩
  | c :: rest =>
    if c = '%' || pending ≠ 0 then .error ⟨"did not find URI escaped octet", mark⟩
    else if isTagChar inBrackets c then
      tagTextFrom inBrackets (seen ++ Bytes.ofChars [c]) 0 mark.right rest
    else .ok (seen, ⟨c :: rest, mark⟩)
  | [] =>
    if pending ≠ 0 then .error ⟨"did not find URI escaped octet", mark⟩
    else .ok (seen, ⟨[], mark⟩)

def Cursor.tagText (cursor : Cursor) (inBrackets : Bool) : Except Malformed (Bytes × Cursor) :=
  tagTextFrom inBrackets [] 0 cursor.mark cursor.rest

/-- Reads the text of a tag, which has to be there. -/
def Cursor.someTagText (cursor : Cursor) (inBrackets : Bool) :
    Except Malformed (Bytes × Cursor) := do
  let (text, after) ← cursor.tagText inBrackets
  if text = [] then cursor.fault "did not find expected tag URI" else return (text, after)

/-- Reads a handle: `!`, `!!` or `!name!`; also `!name`, which is a handle in the making. -/
def Cursor.handle (cursor : Cursor) : Except Malformed (List Char × Cursor) :=
  if cursor.sees '!' then
    let (name, after) := cursor.skip.span isWord
    if after.sees '!' then .ok ('!' :: name ++ ['!'], after.skip) else .ok ('!' :: name, after)
  else cursor.fault "did not find expected '!'"

/-- Reads a tag: its handle, empty for a tag that is written in full, and the rest. -/
def Cursor.tag (cursor : Cursor) (flow : Bool) :
    Except Malformed (Bytes × Bytes × Cursor) := do
  let (handle, text, after) ←
    if cursor.skip.sees '<' then do
      let (text, after) ← cursor.skip.skip.someTagText true
      if after.sees '>' then pure ([], text, after.skip)
      else after.fault "did not find the expected '>'"
    else do
      let (handle, after) ← cursor.handle
      if handle.length ≥ 2 && handle.getLast? = some '!' then do
        let (text, after) ← after.someTagText false
        pure (Bytes.ofChars handle, text, after)
      else do
        let (more, after) ← after.tagText false
        let text := Bytes.ofChars handle.tail ++ more
        if text = [] then pure ([], Bytes.ofChars ['!'], after)
        else pure (Bytes.ofChars ['!'], text, after)
  if (flow && after.sees ',') || atGap after.rest then return (handle, text, after)
  else after.fault "did not find expected whitespace or line break"

/-- The characters that may follow the name of an anchor, besides white space. -/
def endsName (c : Char) : Bool := "?:,]\x7d%@\x60".toList.contains c

def Cursor.anchorName (cursor : Cursor) : Except Malformed (List Char × Cursor) :=
  let (name, after) := cursor.skip.span isWord
  if name ≠ [] && (atGap after.rest || after.rest.head?.any endsName) then .ok (name, after)
  else cursor.fault "did not find expected alphabetic or numeric character"

/-! ### Directives -/

/-- Reads a number of at most nine digits. -/
def Cursor.number (cursor : Cursor) : Except Malformed (Nat × Cursor) :=
  let (digits, after) := cursor.span isDigit
  if digits = [] then cursor.fault "did not find expected version number"
  else if 9 < digits.length then cursor.fault "found extremely long version number"
  else .ok (digits.foldl (fun n c => 10 * n + (c.toNat - 48)) 0, after)

def Cursor.version (cursor : Cursor) : Except Malformed (Nat × Nat × Cursor) := do
  let (major, after) ← (cursor.skipWhile isBlank).number
  if !after.sees '.' then after.fault "did not find expected digit or '.' character"
  else
    let (minor, last) ← after.skip.number
    return (major, minor, last)

def Cursor.tagHandle (cursor : Cursor) : Except Malformed (Bytes × Bytes × Cursor) := do
  let (handle, after) ← (cursor.skipWhile isBlank).handle
  if handle ≠ ['!'] && handle.getLast? ≠ some '!' then after.fault "did not find expected '!'"
  else if !after.rest.head?.any isBlank then after.fault "did not find expected whitespace"
  else
    let (meaning, last) ← (after.skipWhile isBlank).someTagText true
    if atGap last.rest then return (Bytes.ofChars handle, meaning, last)
    else last.fault "did not find expected whitespace or line break"

end TreePlan.Yaml

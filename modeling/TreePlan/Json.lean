/-!
# JSON documents

The documents printed for other programs. A record keeps its fields in the order in which
they are written, so equal documents have equal texts.
-/

namespace TreePlan

/-- A JSON document without fractions, which no output here needs. -/
inductive Json where
  | bool (value : Bool)
  | number (value : Nat)
  | text (value : String)
  | list (items : List Json)
  | record (fields : List (String × Json))
  deriving Repr, Inhabited

namespace Json

def hexDigit (n : Nat) : Char := if n < 10 then Char.ofNat (48 + n) else Char.ofNat (87 + n)

/-- One character of a text: quotes, backslashes and control characters are escaped, those
with a short escape by it. -/
def escapeChar (c : Char) : List Char :=
  if c = '"' then ['\\', '"']
  else if c = '\\' then ['\\', '\\']
  else if c.toNat = 0x08 then ['\\', 'b']
  else if c.toNat = 0x09 then ['\\', 't']
  else if c.toNat = 0x0A then ['\\', 'n']
  else if c.toNat = 0x0C then ['\\', 'f']
  else if c.toNat = 0x0D then ['\\', 'r']
  else if c.toNat < 0x20 then ['\\', 'u', '0', '0', hexDigit (c.toNat / 16), hexDigit (c.toNat % 16)]
  else [c]

def quote (s : String) : String :=
  String.ofList ('"' :: (s.toList.flatMap escapeChar ++ ['"']))

/-- The start of a line at the given depth: two spaces for each level. -/
def newLine (depth : Nat) : String := "\n" ++ String.ofList (List.replicate (2 * depth) ' ')

mutual

def parts (depth : Nat) : Json → List String
  | .bool true => ["true"]
  | .bool false => ["false"]
  | .number n => [Nat.repr n]
  | .text s => [quote s]
  | .list [] => ["[]"]
  | .list (item :: rest) =>
    "[" :: newLine (depth + 1) :: (parts (depth + 1) item ++ itemParts depth rest)
  | .record [] => ["\x7b\x7d"]
  | .record ((key, value) :: rest) =>
    "\x7b" :: newLine (depth + 1) :: quote key :: ": " ::
      (parts (depth + 1) value ++ fieldParts depth rest)

/-- The items of a list after its first one, and the end of the list. -/
def itemParts (depth : Nat) : List Json → List String
  | [] => [newLine depth, "]"]
  | item :: rest =>
    "," :: newLine (depth + 1) :: (parts (depth + 1) item ++ itemParts depth rest)

/-- The fields of a record after its first one, and the end of the record. -/
def fieldParts (depth : Nat) : List (String × Json) → List String
  | [] => [newLine depth, "\x7d"]
  | (key, value) :: rest =>
    "," :: newLine (depth + 1) :: quote key :: ": " ::
      (parts (depth + 1) value ++ fieldParts depth rest)

end

/-- The text of a document: one item or field a line, two spaces for each level. -/
def render (document : Json) : String := String.join (document.parts 0)

end Json

end TreePlan

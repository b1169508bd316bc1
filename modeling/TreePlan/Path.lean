import TreePlan.Text.Utf8

/-!
# Paths

A path is the byte string that is handed to the file system. It is never normalised:
`out//a/./b` stays as it is written, because the commands of a plan name paths by their
text. Three views of the text are used:

* `join` puts a name below a path, with one separator where none is there yet;
* `components` forgets what makes no difference to which node is named: repeated
  separators, inner and trailing `.`, a trailing separator;
* `parent?` is the text in front of the last component.

`shown` is the text of a path for people, which is exact when the path is UTF-8.
-/

namespace TreePlan

/-- A path as the file system takes it. -/
structure Path where
  bytes : Bytes
  deriving DecidableEq, Repr, Inhabited

namespace Path

def ofString (s : String) : Path := ⟨Bytes.ofString s⟩

/-- The empty path, which names nothing. -/
def empty : Path := ⟨[]⟩

/-- Whether resolving the path starts at the root. -/
def isAbsolute (p : Path) : Bool := p.bytes.head? = some Bytes.slash

/-- The path `name` taken from `base`. An absolute `name` is left alone, and so is a `name`
taken from the empty path; otherwise one separator stands between the two unless `base`
already ends in one. -/
def join (base name : Path) : Path :=
  if name.isAbsolute then name
  else if base.bytes = [] then name
  else if base.bytes.getLast? = some Bytes.slash then ⟨base.bytes ++ name.bytes⟩
  else ⟨base.bytes ++ Bytes.slash :: name.bytes⟩

def child (base : Path) (name : Name) : Path := base.join ⟨name⟩

def isText (p : Path) : Bool := Utf8.isText p.bytes

/-- The text of the path for people: ill-formed parts appear as U+FFFD. -/
def shown (p : Path) : String := String.ofList (Utf8.lossy p.bytes)

def text? (p : Path) : Option String := (Utf8.decode? p.bytes).map String.ofList

/-! ### Components -/

/-- What a path starts with, in front of its components. -/
inductive Start where
  | here  -- nothing: the path is relative
  | dot  -- a `.` component at the very front, which is kept although it names the same node
  | root
  deriving DecidableEq, Repr

/-- The text a start is written as. -/
def Start.bytes : Start → Bytes
  | .here => []
  | .dot => [Bytes.dot]
  | .root => [Bytes.slash]

def split (p : Path) : Start × Bytes :=
  match p.bytes with
  | [] => (.here, [])
  | a :: rest =>
    if a = Bytes.slash then (.root, rest)
    else if a = Bytes.dot && (rest = [] || rest.head? = some Bytes.slash) then (.dot, rest)
    else (.here, a :: rest)

/-- The pieces of a text between its separators, empty ones included. -/
def pieces (bs : Bytes) : List Bytes := bs.splitOn Bytes.slash

/-- Whether a piece names nothing new: it is empty or `.`. -/
def isIdle (piece : Bytes) : Bool := piece = [] || piece = [Bytes.dot]

/-- The components of a path: its start, and its names in order. -/
def components (p : Path) : Start × List Name :=
  (p.split.1, (pieces p.split.2).filter fun piece => !isIdle piece)

def sameAs (p q : Path) : Bool := p.components = q.components

def dropIdle (parts : List Bytes) : List Bytes := (parts.reverse.dropWhile isIdle).reverse

/-- The text in front of the last component, without the separators and idle pieces between
them. The root and the empty path have none; the parent of a lone name is the empty path. -/
def parent? (p : Path) : Option Path :=
  let start := p.split.1
  let parts := dropIdle (pieces p.split.2)
  if parts = [] then
    if start = .dot then some empty else none
  else some ⟨start.bytes ++ [Bytes.slash].intercalate (dropIdle parts.dropLast)⟩

/-- The directory that holds what a path names, with the empty path for none. -/
def directory (p : Path) : Path := p.parent?.getD empty

/-! ### Small facts on `join` -/

@[simp] theorem join_of_isAbsolute {base name : Path} (h : name.isAbsolute = true) :
    base.join name = name := by simp [join, h]

@[simp] theorem empty_join (name : Path) : empty.join name = name := by
  simp [join, empty]

end Path

end TreePlan

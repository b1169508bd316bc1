import TreePlan.Yaml.Token
import TreePlan.Yaml.Token.Block
import TreePlan.Yaml.Token.Plain
import TreePlan.Yaml.Token.Quoted
import TreePlan.Yaml.Token.Tag

/-!
# Cutting a text into tokens

The text of a key does not show that it is one before the `:` behind it is read. So wherever
a key could start, the lexer remembers the place, and when a `:` follows in time it puts the
tokens for a key, and for a mapping that starts with it, in front of what it read since. A
token is handed out once nothing can be put in front of it any more.

`Token.ofText` yields the tokens that are handed out before the first fault, and the fault.
What comes before a fault can thus be used, and is not affected by it.
-/

namespace TreePlan.Yaml

/-- A place where a key may have started. -/
structure KeyStart where
  number : Nat  -- the number of the token there, counted over the whole text
  mark : Mark
  required : Bool  -- whether nothing but a key can stand there
  deriving Repr

/-- A text that is partly cut into tokens. -/
structure Lexer where
  cursor : Cursor
  queue : List Token := []  -- the tokens that are not handed out yet
  handedOut : Nat := 0
  margin : Nat := 0  -- the column, counted from 1, of the innermost block; 0 outside of blocks
  outerMargins : List Nat := []  -- the same for the blocks around it, from the inside out
  keyAllowed : Bool := true
  /-- Where a key may have started, here and around the open brackets, from the inside out. -/
  keyStart : Option KeyStart := none
  outerKeyStarts : List (Option KeyStart) := []
  deriving Repr

namespace Lexer

/-- Whether the text at hand stands within brackets. -/
def inFlow (lexer : Lexer) : Bool := !lexer.outerKeyStarts.isEmpty

def mark (lexer : Lexer) : Mark := lexer.cursor.mark

def push (lexer : Lexer) (lexeme : Lexeme) (start stop : Mark) : Lexer :=
  { lexer with queue := lexer.queue ++ [⟨lexeme, start, stop⟩] }

/-- Adds a token in front of the token with the given number. -/
def insert (lexer : Lexer) (number : Nat) (lexeme : Lexeme) (place : Mark) : Lexer :=
  { lexer with queue := lexer.queue.insertIdx (number - lexer.handedOut) ⟨lexeme, place, place⟩ }

def pushIndicator (lexer : Lexer) (lexeme : Lexeme) (size : Nat) : Lexer :=
  let after : Cursor := ⟨lexer.cursor.rest.drop size, lexer.mark.rightBy size⟩
  { lexer.push lexeme lexer.mark after.mark with cursor := after }

/-! ### Keys -/

/-- How far a `:` may be from the start of its key. -/
def maxKeyLength : Nat := 1024

/-- Whether it is too late for a `:` to make a key of what started at `key`. -/
def isStale (key : KeyStart) (mark : Mark) : Bool :=
  key.mark.line < mark.line || key.mark.index + maxKeyLength < mark.index

/-- Refuses a place that had to be a key and is none. -/
def missingColon {α : Type} (key : KeyStart) : Except Malformed α :=
  .error ⟨"could not find expected ':'", key.mark⟩

/-- Forgets a place where a key may have started once it is too late. -/
def refresh (mark : Mark) : Option KeyStart → Except Malformed (Option KeyStart)
  | none => .ok none
  | some key =>
    if !isStale key mark then .ok (some key)
    else if key.required then missingColon key
    else .ok none

def dropStale (lexer : Lexer) : Except Malformed Lexer := do
  let outer ← lexer.outerKeyStarts.reverse.mapM (refresh lexer.mark)
  let inner ← refresh lexer.mark lexer.keyStart
  return { lexer with keyStart := inner, outerKeyStarts := outer.reverse }

/-- Forgets the place where a key may have started, since none follows. -/
def dropKey (lexer : Lexer) : Except Malformed Lexer :=
  match lexer.keyStart with
  | some key =>
    if key.required then missingColon key else .ok { lexer with keyStart := none }
  | none => .ok lexer

def noteKey (lexer : Lexer) : Except Malformed Lexer :=
  if !lexer.keyAllowed then .ok lexer
  else do
    let key : KeyStart :=
      { number := lexer.handedOut + lexer.queue.length
        mark := lexer.mark
        required := !lexer.inFlow && lexer.margin = lexer.mark.column + 1 }
    return { ← lexer.dropKey with keyStart := some key }

/-! ### Blocks -/

/-- Opens a block at a column, if none is open there: `opening` is put in front of the token
with the given number, or at the end. -/
def openBlock (lexer : Lexer) (column : Nat) (number : Option Nat) (opening : Lexeme)
    (start : Mark) : Lexer :=
  if lexer.inFlow || column < lexer.margin then lexer
  else
    let inner := { lexer with
      margin := column + 1
      outerMargins := lexer.margin :: lexer.outerMargins }
    match number with
    | some n => inner.insert n opening start
    | none => inner.push opening start start

/-- Closes blocks from the inside out as long as their margin is above `margin`. -/
def closeBlocks (margin : Nat) (place : Mark) : (current : Nat) → List Nat →
    Nat × List Nat × List Token
  | current, outer =>
    match outer with
    | [] => (current, [], [])
    | next :: rest =>
      if margin < current then
        let (last, left, tokens) := closeBlocks margin place next rest
        (last, left, ⟨.blockEnd, place, place⟩ :: tokens)
      else (current, outer, [])

/-- Closes all blocks that a line starting at a column less than `margin` does not belong to. -/
def closeTo (lexer : Lexer) (margin : Nat) : Lexer :=
  if lexer.inFlow then lexer
  else
    let (last, left, tokens) := closeBlocks margin lexer.mark lexer.margin lexer.outerMargins
    { lexer with margin := last, outerMargins := left, queue := lexer.queue ++ tokens }

/-! ### Between tokens -/

/-- Goes past blanks, comments and line ends. Tabs do not count as white space where a key
may start. A line end outside of brackets makes a key possible again. -/
def skipGap : (fuel : Nat) → Lexer → Lexer
  | 0, lexer => lexer
  | fuel + 1, lexer =>
    let tabs := lexer.inFlow || !lexer.keyAllowed
    -- A mark of the byte order may stand in front of the text.
    let start := if lexer.mark.index = 0 && lexer.cursor.sees '\ufeff' then lexer.cursor.skip
      else lexer.cursor
    let next := (start.skipWhile fun c => c = ' ' || (tabs && c = '\t')).skipComment
    if next.rest.head?.any isBreak then
      skipGap fuel { lexer with
        cursor := next.skipBreak
        keyAllowed := lexer.keyAllowed || !lexer.inFlow }
    else { lexer with cursor := next }

/-! ### Tokens -/

def fetchEnd (lexer : Lexer) : Except Malformed Lexer := do
  let mark := lexer.mark
  -- The end stands on a line of its own.
  let last := if mark.column = 0 then mark else ⟨mark.index, mark.line + 1, 0⟩
  let closed ← ({ lexer with cursor := ⟨[], last⟩ }.closeTo 0).dropKey
  return { closed with keyAllowed := false }.push .streamEnd last last

def fetchDirective (lexer : Lexer) : Except Malformed Lexer := do
  let closed ← (lexer.closeTo 0).dropKey
  let (name, afterName) := lexer.cursor.skip.span isWord
  if name = [] then afterName.fault "could not find expected directive name"
  else if !atGap afterName.rest then
    afterName.fault "found unexpected non-alphabetical character"
  else do
    let (lexeme, after) ←
      if name = "YAML".toList then do
        let (major, minor, after) ← afterName.version
        pure (Lexeme.version major minor, after)
      else if name = "TAG".toList then do
        let (handle, meaning, after) ← afterName.tagHandle
        pure (Lexeme.tagHandle handle meaning, after)
      else lexer.cursor.fault "found unknown directive name"
    let next ← after.endLine
    return { closed.push lexeme lexer.mark after.mark with cursor := next, keyAllowed := false }

def fetchDocumentMark (lexer : Lexer) (lexeme : Lexeme) : Except Malformed Lexer := do
  let closed ← (lexer.closeTo 0).dropKey
  return { closed with keyAllowed := false }.pushIndicator lexeme 3

def fetchOpening (lexer : Lexer) (lexeme : Lexeme) : Except Malformed Lexer := do
  -- What the brackets hold may be a key; inside them keys start anew.
  let noted ← lexer.noteKey
  return { noted with
    keyStart := none
    outerKeyStarts := noted.keyStart :: noted.outerKeyStarts
    keyAllowed := true }.pushIndicator lexeme 1

def fetchClosing (lexer : Lexer) (lexeme : Lexeme) : Except Malformed Lexer := do
  let dropped ← lexer.dropKey
  -- Back to the key that may have started in front of the brackets.
  let left := match dropped.outerKeyStarts with
    | key :: outer => { dropped with keyStart := key, outerKeyStarts := outer }
    | [] => dropped
  return { left with keyAllowed := false }.pushIndicator lexeme 1

def fetchFlowEntry (lexer : Lexer) : Except Malformed Lexer := do
  return { ← lexer.dropKey with keyAllowed := true }.pushIndicator .flowEntry 1

def fetchBlockEntry (lexer : Lexer) : Except Malformed Lexer :=
  if !lexer.inFlow && !lexer.keyAllowed then
    lexer.cursor.fault "block sequence entries are not allowed in this context"
  else do
    let opened := lexer.openBlock lexer.mark.column none .blockSequenceStart lexer.mark
    return { ← opened.dropKey with keyAllowed := true }.pushIndicator .blockEntry 1

def fetchKey (lexer : Lexer) : Except Malformed Lexer :=
  if !lexer.inFlow && !lexer.keyAllowed then
    lexer.cursor.fault "mapping keys are not allowed in this context"
  else do
    let opened := lexer.openBlock lexer.mark.column none .blockMappingStart lexer.mark
    return { ← opened.dropKey with keyAllowed := !lexer.inFlow }.pushIndicator .key 1

/-- A `:` in front of a value. What was read since the last place where a key could start
is its key. -/
def fetchValue (lexer : Lexer) : Except Malformed Lexer :=
  match lexer.keyStart with
  | some key =>
    -- The key comes first, so that the mapping is opened in front of it.
    let keyed := lexer.insert key.number .key key.mark
    let opened := keyed.openBlock key.mark.column (some key.number) .blockMappingStart key.mark
    .ok ({ opened with keyStart := none, keyAllowed := false }.pushIndicator .value 1)
  | none =>
    if !lexer.inFlow && !lexer.keyAllowed then
      lexer.cursor.fault "mapping values are not allowed in this context"
    else
      -- Here the key is empty.
      let opened := lexer.openBlock lexer.mark.column none .blockMappingStart lexer.mark
      .ok ({ opened with keyAllowed := !lexer.inFlow }.pushIndicator .value 1)

/-- An anchor or an alias. -/
def fetchName (lexer : Lexer) (lexeme : List Char → Lexeme) : Except Malformed Lexer := do
  let noted ← lexer.noteKey
  let (name, after) ← lexer.cursor.anchorName
  return { noted.push (lexeme name) lexer.mark after.mark with cursor := after, keyAllowed := false }

def fetchTag (lexer : Lexer) : Except Malformed Lexer := do
  let noted ← lexer.noteKey
  let (handle, rest, after) ← lexer.cursor.tag lexer.inFlow
  return { noted.push (.tag handle rest) lexer.mark after.mark with
    cursor := after, keyAllowed := false }

def fetchBlockScalar (lexer : Lexer) (folded : Bool) : Except Malformed Lexer := do
  let dropped ← lexer.dropKey
  let (text, stop, after) ← lexer.cursor.blockScalar folded lexer.margin
  let style := if folded then Style.folded else .literal
  return { dropped.push (.scalar text style) lexer.mark stop with
    cursor := after, keyAllowed := true }

def fetchQuoted (lexer : Lexer) (single : Bool) : Except Malformed Lexer := do
  let noted ← lexer.noteKey
  let (text, after) ← lexer.cursor.quotedScalar single
  let style := if single then Style.singleQuoted else .doubleQuoted
  return { noted.push (.scalar text style) lexer.mark after.mark with
    cursor := after, keyAllowed := false }

def fetchPlain (lexer : Lexer) : Except Malformed Lexer := do
  let noted ← lexer.noteKey
  let scalar ← lexer.cursor.plainScalar lexer.inFlow lexer.margin
  return { noted.push (.scalar scalar.text .plain) lexer.mark scalar.stop with
    cursor := scalar.after, keyAllowed := scalar.crossed }

def startsPlain (flow : Bool) : List Char → Bool
  | [] => false
  | c :: rest =>
    let next := rest.head?
    if isBlank c || isBreak c then false
    else if c = '-' then !next.any isBlank
    else if c = '?' || c = ':' then !flow && !atGap rest
    else !(",[]\x7b\x7d#&*!|>'\"%@\x60".toList.contains c)

/-- Reads on up to the end of the next token. -/
def fetch (lexer : Lexer) : Except Malformed Lexer := do
  let here ← (lexer.skipGap (lexer.cursor.rest.length + 1)).dropStale
  -- A column to the left of a block ends it.
  let here := here.closeTo (here.mark.column + 1)
  let flow := here.inFlow
  let atMargin := here.mark.column = 0
  match here.cursor.rest with
  | [] => here.fetchEnd
  | c :: rest =>
    if atMargin && c = '%' then here.fetchDirective
    else if atMargin && c = '-' && atDocumentMark (c :: rest) then
      here.fetchDocumentMark .documentStart
    else if atMargin && c = '.' && atDocumentMark (c :: rest) then
      here.fetchDocumentMark .documentEnd
    else if c = '[' then here.fetchOpening .flowSequenceStart
    else if c = '\x7b' then here.fetchOpening .flowMappingStart
    else if c = ']' then here.fetchClosing .flowSequenceEnd
    else if c = '\x7d' then here.fetchClosing .flowMappingEnd
    else if c = ',' then here.fetchFlowEntry
    else if c = '-' && atGap rest then here.fetchBlockEntry
    else if c = '?' && (flow || atGap rest) then here.fetchKey
    else if c = ':' && (flow || atGap rest) then here.fetchValue
    else if c = '*' then here.fetchName .alias
    else if c = '&' then here.fetchName .anchor
    else if c = '!' then here.fetchTag
    else if c = '|' && !flow then here.fetchBlockScalar false
    else if c = '>' && !flow then here.fetchBlockScalar true
    else if c = '\'' then here.fetchQuoted true
    else if c = '"' then here.fetchQuoted false
    else if startsPlain flow (c :: rest) then here.fetchPlain
    else here.cursor.fault "found character that cannot start any token"

/-- Whether a key may still turn out to start at the token with the given number. -/
def mayBeKey (lexer : Lexer) (number : Nat) : Bool :=
  (lexer.keyStart :: lexer.outerKeyStarts).any fun key => key.any (·.number = number)

/-- Hands out tokens up to one in front of which something may still be put. -/
def handOut (lexer : Lexer) : List Token × Lexer :=
  go lexer.handedOut lexer.queue
where
  /-- Works off the queue, whose first token has the given number. -/
  go (number : Nat) : List Token → List Token × Lexer
    | [] => ([], { lexer with queue := [], handedOut := number })
    | token :: rest =>
      if lexer.mayBeKey number then
        ([], { lexer with queue := token :: rest, handedOut := number })
      else
        let (tokens, after) := go (number + 1) rest
        (token :: tokens, after)

/-- Cuts the whole text. Every fetch but the last goes past a character, so `fuel` can be
the number of characters left and one more. -/
def run : (fuel : Nat) → Lexer → List Token × Option Malformed
  | 0, _ => ([], none)
  | fuel + 1, lexer =>
    match lexer.fetch >>= dropStale with
    | .error fault => ([], some fault)
    | .ok next =>
      -- These tokens stay good, whatever is wrong with the rest.
      let (tokens, after) := next.handOut
      if tokens.any fun token => token.lexeme = .streamEnd then (tokens, none)
      else
        let (more, fault) := run fuel after
        (tokens ++ more, fault)

end Lexer

/-- The tokens of a text up to its first fault, and the fault. A text with a character that
may not stand in a document has no tokens at all. -/
def Token.ofText (text : List Char) : List Token × Option Malformed :=
  if text.all isAllowed then
    let (tokens, fault) := Lexer.run (text.length + 2) { cursor := ⟨text, {}⟩ }
    (⟨.streamStart, {}, {}⟩ :: tokens, fault)
  else ([], some ⟨"control characters are not allowed", {}⟩)

end TreePlan.Yaml

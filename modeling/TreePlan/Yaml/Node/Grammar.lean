import TreePlan.Yaml.Node
import TreePlan.Yaml.Token.Lexer

/-!
# From tokens to nodes

How tokens make up nodes. Reading stops at the first token that fits nowhere, and at the end
of the tokens with the fault that ended them. `Document.ofText` reads one document, and
takes anything behind it for a fault.
-/

namespace TreePlan.Yaml

/-- Tokens that are left, and what was learnt from the ones before. -/
structure Reading where
  tokens : List Token
  ending : Malformed  -- what is wrong where the tokens end
  /-- The anchors named so far, each with its number, the latest first. -/
  anchors : List (List Char × Nat) := []
  handles : List (Bytes × Bytes) := []  -- what the handles of tags stand for

/-- What came of reading: a value, and the fault that ended it early, if any. -/
structure Outcome (α : Type) where
  value : α
  fault : Option Malformed
  reading : Reading

namespace Reading

def next? (reading : Reading) : Option Token := reading.tokens.head?

def ahead (reading : Reading) : Option Lexeme := reading.next?.map (·.lexeme)

def sees (reading : Reading) (lexemes : List Lexeme) : Bool :=
  reading.ahead.any fun lexeme => lexemes.contains lexeme

def skip (reading : Reading) : Reading := { reading with tokens := reading.tokens.tail }

def place (reading : Reading) : Mark := (reading.next?.map (·.start)).getD reading.ending.place

def placeAfter (reading : Reading) : Mark :=
  (reading.next?.map (·.stop)).getD reading.ending.place

/-- The fault at the next token: the given one, or the end of the tokens. -/
def fault (reading : Reading) (reason : String) : Malformed :=
  match reading.next? with
  | some token => ⟨reason, token.start⟩
  | none => reading.ending

/-- The number that an anchor gets: how many different names came before. -/
def numberAnchor (reading : Reading) (name : Option (List Char)) : Option Nat × Reading :=
  match name with
  | none => (none, reading)
  | some name =>
    let number := (reading.anchors.map (·.1)).eraseDups.length
    (some number, { reading with anchors := (name, number) :: reading.anchors })

def anchorName (reading : Reading) : Option (List Char) × Reading :=
  match reading.ahead with
  | some (.anchor name) => (some name, reading.skip)
  | _ => (none, reading)

def tag (reading : Reading) : Option (Bytes × Bytes) × Reading :=
  match reading.ahead with
  | some (.tag handle rest) => (some (handle, rest), reading.skip)
  | _ => (none, reading)

/-- Reads an anchor and a tag, in either order. -/
def properties (reading : Reading) : Option (List Char) × Option (Bytes × Bytes) × Reading :=
  let (anchor, afterAnchor) := reading.anchorName
  let (tag, afterTag) := afterAnchor.tag
  if anchor.isSome then (anchor, tag, afterTag)
  else
    let (late, last) := afterTag.anchorName
    (late, tag, last)

/-- The full text of a tag, or none if its handle stands for nothing. -/
def fullTag? (reading : Reading) : Bytes × Bytes → Option Bytes
  | ([], rest) => some rest
  | (handle, rest) => (reading.handles.lookup handle).map (· ++ rest)

end Reading

/-- The tag that leaves the meaning of a scalar to its text. -/
def openTag : Bytes := Bytes.ofString "!"

mutual

/-- Reads one node. `block` tells whether it may be a block, and `indentless` whether items
may stand at the column of the key they belong to. Every call below goes past a token, or
ends a collection, so `fuel` can be a multiple of the number of tokens. -/
def readNode (block indentless : Bool) : (fuel : Nat) → Reading → Outcome (Option Node)
  | 0, reading => ⟨none, some (reading.fault "found too many tokens"), reading⟩
  | fuel + 1, reading =>
    match reading.ahead with
    | some (.alias name) =>
      match reading.anchors.lookup name with
      | some number => ⟨some (.alias reading.place number), none, reading.skip⟩
      | none => ⟨none, some (reading.fault "unknown anchor"), reading⟩
    | _ =>
      let place := reading.place
      let (name, written, inner) := reading.properties
      let tag := written.bind inner.fullTag?
      let (anchor, named) := inner.numberAnchor name
      if written.isSome && tag.isNone then
        ⟨none, some ⟨"found undefined tag handle", place⟩, inner⟩
      else
        let collected (node : List Node → Bool → Node) (parts : Outcome (List Node)) :
            Outcome (Option Node) :=
          ⟨some (node parts.value parts.fault.isNone), parts.fault, parts.reading⟩
        let without : Outcome (Option Node) :=
          if named.tokens = [] then ⟨none, some named.ending, named⟩
          -- An anchor or a tag is enough for a node, whose text is then empty.
          else if name.isSome || written.isSome then
            ⟨some (.scalar place anchor tag [] .plain), none, named⟩
          else ⟨none, some (named.fault "did not find expected node content"), named⟩
        match named.ahead with
        | some (.scalar text style) =>
          let kept := if tag = some openTag then none else tag
          ⟨some (.scalar place anchor kept text style), none, named.skip⟩
        | some .flowSequenceStart =>
          collected (.sequence place anchor) (readFlowSequence true fuel named.skip)
        | some .flowMappingStart =>
          collected (.mapping place anchor) (readFlowMapping true fuel named.skip)
        | some .blockEntry =>
          if indentless then collected (.sequence place anchor) (readIndentless fuel named)
          else without
        | some .blockSequenceStart =>
          if block then collected (.sequence place anchor) (readBlockSequence fuel named.skip)
          else without
        | some .blockMappingStart =>
          if block then collected (.mapping place anchor) (readBlockMapping fuel named.skip)
          else without
        | _ => without

/-- Reads one node unless one of the lexemes `ends` is next; then the node is empty, and its
place is `place`. -/
def readNodeUnless (ends : List Lexeme) (place : Mark) (block : Bool) (indentless : Bool) :
    (fuel : Nat) → Reading → Outcome (Option Node)
  | 0, reading => ⟨none, some (reading.fault "found too many tokens"), reading⟩
  | fuel + 1, reading =>
    if reading.tokens = [] then ⟨none, some reading.ending, reading⟩
    else if reading.sees ends then ⟨some (.nothing place), none, reading⟩
    else readNode block indentless fuel reading

def readBlockSequence : (fuel : Nat) → Reading → Outcome (List Node)
  | 0, reading => ⟨[], some (reading.fault "found too many tokens"), reading⟩
  | fuel + 1, reading =>
    match reading.ahead with
    | some .blockEntry =>
      let item := readNodeUnless [.blockEntry, .blockEnd] reading.placeAfter true false fuel
        reading.skip
      if item.fault.isSome then ⟨item.value.toList, item.fault, item.reading⟩
      else
        let more := readBlockSequence fuel item.reading
        { more with value := item.value.toList ++ more.value }
    | some .blockEnd => ⟨[], none, reading.skip⟩
    | _ => ⟨[], some (reading.fault "did not find expected '-' indicator"), reading⟩

/-- Reads the items at the column of their key, up to something else. -/
def readIndentless : (fuel : Nat) → Reading → Outcome (List Node)
  | 0, reading => ⟨[], some (reading.fault "found too many tokens"), reading⟩
  | fuel + 1, reading =>
    match reading.ahead with
    | some .blockEntry =>
      let item := readNodeUnless [.blockEntry, .key, .value, .blockEnd] reading.placeAfter true
        false fuel reading.skip
      if item.fault.isSome then ⟨item.value.toList, item.fault, item.reading⟩
      else
        let more := readIndentless fuel item.reading
        { more with value := item.value.toList ++ more.value }
    | some _ => ⟨[], none, reading⟩
    | none => ⟨[], some reading.ending, reading⟩

def readBlockMapping : (fuel : Nat) → Reading → Outcome (List Node)
  | 0, reading => ⟨[], some (reading.fault "found too many tokens"), reading⟩
  | fuel + 1, reading =>
    let ends : List Lexeme := [.key, .value, .blockEnd]
    match reading.ahead with
    | some .key =>
      let key := readNodeUnless ends reading.placeAfter true true fuel reading.skip
      if key.fault.isSome then ⟨key.value.toList, key.fault, key.reading⟩
      else
        let here := key.reading
        let value : Outcome (Option Node) :=
          match here.ahead with
          | some .value => readNodeUnless ends here.placeAfter true true fuel here.skip
          | some _ => ⟨some (.nothing here.place), none, here⟩  -- a key without a value
          | none => ⟨none, some here.ending, here⟩
        let pair := key.value.toList ++ value.value.toList
        if value.fault.isSome then ⟨pair, value.fault, value.reading⟩
        else
          let more := readBlockMapping fuel value.reading
          { more with value := pair ++ more.value }
    | some .blockEnd => ⟨[], none, reading.skip⟩
    | _ => ⟨[], some (reading.fault "did not find expected key"), reading⟩

/-- Reads the items between brackets up to the closing one. Every item but the `first` stands
behind a comma. -/
def readFlowSequence (first : Bool) : (fuel : Nat) → Reading → Outcome (List Node)
  | 0, reading => ⟨[], some (reading.fault "found too many tokens"), reading⟩
  | fuel + 1, reading =>
    if reading.sees [.flowSequenceEnd] then ⟨[], none, reading.skip⟩
    else if !first && !reading.sees [.flowEntry] then
      ⟨[], some (reading.fault "did not find expected ',' or ']'"), reading⟩
    else
      let here := if first then reading else reading.skip
      if here.sees [.flowSequenceEnd] then ⟨[], none, here.skip⟩
      else
        let item : Outcome (Option Node) :=
          if here.sees [.key] then
            let pair := readFlowPair fuel here.skip
            ⟨some (.mapping here.place none pair.value pair.fault.isNone), pair.fault, pair.reading⟩
          else readNode false false fuel here
        if item.fault.isSome then ⟨item.value.toList, item.fault, item.reading⟩
        else
          let more := readFlowSequence false fuel item.reading
          { more with value := item.value.toList ++ more.value }

/-- Reads the one key and value of an item that is a mapping without brackets of its own. -/
def readFlowPair : (fuel : Nat) → Reading → Outcome (List Node)
  | 0, reading => ⟨[], some (reading.fault "found too many tokens"), reading⟩
  | fuel + 1, reading =>
    let ends : List Lexeme := [.flowEntry, .flowSequenceEnd]
    let key : Outcome (Option Node) :=
      if reading.sees (.value :: ends) then
        ⟨some (.nothing reading.placeAfter), none, reading.skip⟩
      else readNode false false fuel reading
    if key.fault.isSome then ⟨key.value.toList, key.fault, key.reading⟩
    else
      let here := if key.reading.sees [.value] then key.reading.skip else key.reading
      let value : Outcome (Option Node) :=
        if key.reading.sees [.value] then
          readNodeUnless ends here.place false false fuel here
        else if here.tokens = [] then ⟨none, some here.ending, here⟩
        else ⟨some (.nothing here.place), none, here⟩
      let fault := match value.fault with
        | some fault => some fault
        | none => if value.reading.tokens = [] then some value.reading.ending else none
      ⟨key.value.toList ++ value.value.toList, fault, value.reading⟩

/-- Reads the keys and values between braces up to the closing one. Every key but the `first`
stands behind a comma. -/
def readFlowMapping (first : Bool) : (fuel : Nat) → Reading → Outcome (List Node)
  | 0, reading => ⟨[], some (reading.fault "found too many tokens"), reading⟩
  | fuel + 1, reading =>
    let ends : List Lexeme := [.flowEntry, .flowMappingEnd]
    if reading.sees [.flowMappingEnd] then ⟨[], none, reading.skip⟩
    else if !first && !reading.sees [.flowEntry] then
      ⟨[], some (reading.fault "did not find expected ',' or '\x7d'"), reading⟩
    else
      let here := if first then reading else reading.skip
      if here.sees [.flowMappingEnd] then ⟨[], none, here.skip⟩
      else
        let marked := here.sees [.key]
        let key : Outcome (Option Node) :=
          if marked then
            readNodeUnless (.value :: ends) here.skip.place false false fuel here.skip
          else readNode false false fuel here
        if key.fault.isSome then ⟨key.value.toList, key.fault, key.reading⟩
        else
          let next := key.reading
          let value : Outcome (Option Node) :=
            if next.tokens = [] then ⟨none, some next.ending, next⟩
            else if marked && next.sees [.value] then
              readNodeUnless ends next.skip.place false false fuel next.skip
            else ⟨some (.nothing next.place), none, next⟩
          let pair := key.value.toList ++ value.value.toList
          if value.fault.isSome then ⟨pair, value.fault, value.reading⟩
          else
            let more := readFlowMapping false fuel value.reading
            { more with value := pair ++ more.value }

end

/-! ### Documents -/

/-- What the handles of tags stand for unless a directive says otherwise. -/
def usualHandles : List (Bytes × Bytes) :=
  [(Bytes.ofString "!", Bytes.ofString "!"),
   (Bytes.ofString "!!", Bytes.ofString "tag:yaml.org,2002:")]

/-- Reads the directives in front of a document. There is at most one version, which has to
be a known one, and no handle is given twice. -/
def readDirectives (versioned : Bool) (handles : List (Bytes × Bytes)) :
    List Token → Except Malformed (List (Bytes × Bytes) × List Token)
  | [] => .ok (handles, [])
  | token :: rest =>
    match token.lexeme with
    | .version major minor =>
      if versioned then .error ⟨"found duplicate %YAML directive", token.start⟩
      else if major = 1 && (minor = 1 || minor = 2) then readDirectives true handles rest
      else .error ⟨"found incompatible YAML document", token.start⟩
    | .tagHandle handle meaning =>
      if (handles.lookup handle).isSome then
        .error ⟨"found duplicate %TAG directive", token.start⟩
      else readDirectives versioned (handles ++ [(handle, meaning)]) rest
    | _ => .ok (handles, token :: rest)

def readRoot (reading : Reading) : Outcome (Option Node) :=
  readNode true false (4 * reading.tokens.length + 8) reading

def Reading.isOver (reading : Reading) : Bool :=
  (reading.tokens.dropWhile (·.lexeme = .documentEnd)).head?.any (·.lexeme = .streamEnd)

def Document.ofOutcome (outcome : Outcome (Option Node)) : Document where
  root := outcome.value
  place := outcome.reading.place
  fault :=
    match outcome.fault with
    | some fault => some fault
    | none =>
      if outcome.reading.isOver then none
      else some (outcome.reading.fault "did not find expected <document end>")

/-- Reads a document from its tokens, without the one for the start of the text. -/
def Document.ofReading (reading : Reading) : Document :=
  match reading.ahead with
  | none => { root := none, fault := some reading.ending }
  | some .streamEnd => { root := none, place := reading.place }
  -- With directives, the document has to be marked; with a mark, there is a document in any case.
  | some (.version ..) | some (.tagHandle ..) | some .documentStart =>
    match readDirectives false [] reading.tokens with
    | .error fault => { root := none, fault := some fault }
    | .ok (handles, tokens) =>
      let start := { reading with tokens, handles := handles ++ usualHandles }
      if start.sees [.documentStart] then
        let here := start.skip
        match here.ahead with
        | none => { root := none, fault := some here.ending }
        | some (.version ..) | some (.tagHandle ..) | some .documentStart
        | some .documentEnd | some .streamEnd =>
          .ofOutcome ⟨some (.nothing here.place), none, here⟩
        | some _ => .ofOutcome (readRoot here)
      else { root := none, fault := some (start.fault "did not find expected <document start>") }
  -- Neither directives nor a mark: the text is the document.
  | some _ => .ofOutcome (readRoot { reading with handles := usualHandles })

def Document.ofText (text : List Char) : Document :=
  let (tokens, fault) := Token.ofText text
  .ofReading
    { tokens := tokens.tail
      ending := fault.getD ⟨"did not find expected token", {}⟩ }

end TreePlan.Yaml

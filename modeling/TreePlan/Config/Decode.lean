import TreePlan.Config
import TreePlan.Config.Failure
import TreePlan.Text.Quoted
import TreePlan.Yaml.Node.Grammar
import TreePlan.Yaml.Scalar

/-!
# Reading configurations

How a document says what a configuration is. Values are read in the order of the text, and
the first defect counts: one early in the text goes before a fault behind it that leaves
the text without an end.

A text takes any scalar, just as it is written. A list or a record that is left empty counts
as one without parts. Unknown keys are passed over.
-/

namespace TreePlan.Config

open Yaml (Document Node Mark)

abbrev Decoded (α : Type) := Except Defect α

/-! ### What was found -/

def describeMeaning : Yaml.Meaning → String
  | .null => "unit value"
  | .boolean value => s!"boolean \x60{LogRecord.truth value}\x60"
  | .integer value =>
    if (Nat.pow 2 64 : Nat) ≤ value then s!"integer \x60{Int.repr value}\x60 as u128"
    else if value < -(Nat.pow 2 63 : Nat) then s!"integer \x60{Int.repr value}\x60 as i128"
    else s!"integer \x60{Int.repr value}\x60"
  | .fraction text => s!"floating point \x60{text}\x60"
  | .text value => s!"string {Text.quoted value}"

/-- The tag that the standard has for a kind of scalars. -/
def standardTag (name : String) : Bytes := Bytes.ofString ("tag:yaml.org,2002:" ++ name)

/-- A scalar that was found where something else should be. A standard tag decides what it
means, and its text has to agree. -/
def foundScalar (tag : Option Bytes) (text : List Char) (style : Yaml.Style)
    (expected : String) : Fault :=
  let asText := describeMeaning (.text text)
  let plain := if style = .plain then describeMeaning (Yaml.meaning text) else asText
  let tagged (meaning : Option Yaml.Meaning) (name : String) : Fault :=
    match meaning with
    | some meaning => .wrongType (describeMeaning meaning) expected
    | none => .wrongValue asText name
  match tag with
  | none => .wrongType plain expected
  | some tag =>
    if tag = standardTag "bool" then
      tagged ((Yaml.boolean? text).map .boolean) "a boolean"
    else if tag = standardTag "int" then
      tagged ((Yaml.integer? text).map .integer) "an integer"
    else if tag = standardTag "float" then
      tagged ((Yaml.fraction? text).map .fraction) "a float"
    else if tag = standardTag "null" then
      tagged (if Yaml.isNull text then some .null else none) "null"
    else if tag.head? = some 0x21 then .wrongType plain expected
    else .wrongType asText expected

def wrongNode (trail : Trail) (expected : String) : Node → Defect
  | .scalar place _ tag text style => ⟨foundScalar tag text style expected, trail, place⟩
  | .sequence place .. => ⟨.wrongType "sequence" expected, trail, place⟩
  | .mapping place .. => ⟨.wrongType "map" expected, trail, place⟩
  | .alias place _ => ⟨.malformed "unknown anchor", trail, place⟩

/-- The defect of a document that broke off. -/
def brokenOff (document : Document) : Defect :=
  match document.fault with
  | some fault => ⟨.malformed fault.reason, [], fault.place⟩
  | none => ⟨.malformed "end of stream", [], document.place⟩

/-- The node an alias stands for. -/
def resolved (document : Document) (node : Node) : Decoded Node :=
  match document.resolve? node with
  | some target => .ok target
  | none => .error (brokenOff document)

/-! ### Texts, lists and records -/

def readText (document : Document) (expected : String) (trail : Trail) (node : Node) :
    Decoded (List Char) := do
  match ← resolved document node with
  | .scalar _ _ _ text _ => return text
  | other => .error (wrongNode trail expected other)

/-- Reads the items of a list, the first of which has the given index. -/
def readItems {α : Type} (item : Trail → Node → Decoded α) (trail : Trail) :
    (index : Nat) → List Node → Decoded (List α)
  | _, [] => return []
  | index, node :: rest => do
    let value ← item (trail ++ [.item index]) node
    return value :: (← readItems item trail (index + 1) rest)

def readList {α : Type} (document : Document) (item : Trail → Node → Decoded α) (trail : Trail)
    (node : Node) : Decoded (List α) := do
  match ← resolved document node with
  | .sequence _ _ items whole =>
    let values ← readItems item trail 0 items
    if whole then return values else .error (brokenOff document)
  | other =>
    if other.isNothing then return [] else .error (wrongNode trail "a sequence" other)

/-- Reads the fields of a record that starts at `start`. `take` reads the value of a field
with one of the `known` names, each of which may be there once. -/
def readFields {ρ : Type} (document : Document) (start : Mark) (known : List String)
    (take : ρ → String → Trail → Node → Decoded ρ) (trail : Trail) (seen : List String)
    (record : ρ) : List Node → Decoded ρ
  | [] => return record
  | key :: rest => do
    let name := String.ofList (← readText document "field identifier" trail key)
    let segment := match key with
      | .scalar _ _ _ text _ => Segment.key text
      | _ => .unnamed
    if known.contains name && seen.contains name then
      .error ⟨.duplicateField name, trail, start⟩
    else
      match rest with
      | [] => .error (brokenOff document)
      | value :: rest =>
        if known.contains name then
          let record ← take record name (trail ++ [segment]) value
          readFields document start known take trail (name :: seen) record rest
        -- What is passed over has to have an end all the same.
        else if value.isWhole then readFields document start known take trail seen record rest
        else .error (brokenOff document)

/-- Reads a record. A record that is left empty has no fields. Yields its place too. -/
def readRecord {ρ : Type} (document : Document) (expected : String) (known : List String)
    (take : ρ → String → Trail → Node → Decoded ρ) (empty : ρ) (trail : Trail) (node : Node) :
    Decoded (ρ × Mark) := do
  match ← resolved document node with
  | .mapping start _ parts whole =>
    let record ← readFields document start known take trail [] empty parts
    if whole then return (record, start) else .error (brokenOff document)
  | other =>
    if other.isNothing then return (empty, other.place)
    else .error (wrongNode trail expected other)

def required {α : Type} (name : String) (trail : Trail) (start : Mark) :
    Option α → Decoded α
  | some value => .ok value
  | none => .error ⟨.missingField name, trail, start⟩

/-! ### Configurations -/

structure PairFields where
  source : Option Path := none
  destination : Option Path := none

def readPath (document : Document) (trail : Trail) (node : Node) : Decoded Path := do
  return ⟨Bytes.ofChars (← readText document "path string" trail node)⟩

def takePairField (document : Document) (fields : PairFields) (name : String) (trail : Trail)
    (node : Node) : Decoded PairFields := do
  let path ← readPath document trail node
  if name = "source" then return { fields with source := some path }
  else return { fields with destination := some path }

def readPair (document : Document) (trail : Trail) (node : Node) : Decoded Pair := do
  let (fields, start) ← readRecord document "struct PathPair" ["source", "destination"]
    (takePairField document) {} trail node
  let source ← required "source" trail start fields.source
  let destination ← required "destination" trail start fields.destination
  return ⟨source, destination⟩

structure ConfigFields where
  pairs : Option (List Pair) := none
  commitMessage : Option String := none
  metadataNames : Option (List String) := none

def readString (document : Document) (trail : Trail) (node : Node) : Decoded String := do
  return String.ofList (← readText document "a string" trail node)

def takeConfigField (document : Document) (fields : ConfigFields) (name : String)
    (trail : Trail) (node : Node) : Decoded ConfigFields := do
  if name = "pairs" then
    return { fields with pairs := some (← readList document (readPair document) trail node) }
  else if name = "commit_message" then
    return { fields with commitMessage := some (← readString document trail node) }
  else
    return { fields with
      metadataNames := some (← readList document (readString document) trail node) }

/-- The configuration with the given fields. All but the pairs may be left out. -/
def ofFields (fields : ConfigFields) (start : Mark) : Decoded Config := do
  let usual : Config := { pairs := ← required "pairs" [] start fields.pairs }
  return { usual with
    commitMessage := fields.commitMessage.getD usual.commitMessage
    metadataNames := fields.metadataNames.getD usual.metadataNames }

/-- Reads a configuration from a document, which must not go wrong behind it either. -/
def ofDocument (document : Document) : Decoded Config := do
  let (fields, start) ← match document.root with
    | some root =>
      readRecord document "struct SyncConfig" ["pairs", "commit_message", "metadata_names"]
        (takeConfigField document) {} [] root
    | none =>
      if document.fault.isSome then .error (brokenOff document) else .ok ({}, document.place)
  let config ← ofFields fields start
  if document.fault.isSome then .error (brokenOff document) else return config

end TreePlan.Config

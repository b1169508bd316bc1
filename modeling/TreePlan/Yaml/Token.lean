import TreePlan.Bytes
import TreePlan.Yaml.Character
import TreePlan.Yaml.Mark

/-!
# Tokens of documents

The pieces a document is cut into. Indentation becomes tokens too: a block is opened where a
line is indented deeper and closed where it is not, so what follows needs no columns.
-/

namespace TreePlan.Yaml

inductive Style where
  | plain
  | singleQuoted
  | doubleQuoted
  | literal
  | folded
  deriving DecidableEq, Repr, Inhabited

inductive Lexeme where
  | streamStart
  | streamEnd
  | version (major minor : Nat)  -- `%YAML`, with the two numbers of the version
  | tagHandle (handle meaning : Bytes)  -- `%TAG`, with a handle and what it stands for
  | documentStart
  | documentEnd
  | blockSequenceStart
  | blockMappingStart
  | blockEnd
  | flowSequenceStart
  | flowSequenceEnd
  | flowMappingStart
  | flowMappingEnd
  | blockEntry
  | flowEntry
  | key
  | value
  | alias (name : List Char)
  | anchor (name : List Char)
  | tag (handle rest : Bytes)  -- a tag: a handle, empty for none, and the rest
  | scalar (text : List Char) (style : Style)
  deriving DecidableEq, Repr, Inhabited

/-- A piece of a document, with the places where it starts and where it ends. -/
structure Token where
  lexeme : Lexeme
  start : Mark
  stop : Mark
  deriving DecidableEq, Repr, Inhabited

end TreePlan.Yaml

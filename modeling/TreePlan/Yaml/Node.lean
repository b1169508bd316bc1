import TreePlan.Yaml.Token

/-!
# Nodes of documents

What a document says: scalars, sequences, mappings, and aliases that stand for a node with
an anchor. A text may break off or go wrong in the middle; then the nodes read so far are
still there, and the collections around that place are not whole.
-/

namespace TreePlan.Yaml

/-- A node, with the place where it starts and the number of its anchor, if it has one. -/
inductive Node where
  | scalar (place : Mark) (anchor : Option Nat) (tag : Option Bytes) (text : List Char)
      (style : Style)
  /-- A sequence; it is `whole` if its end was read. -/
  | sequence (place : Mark) (anchor : Option Nat) (items : List Node) (whole : Bool)
  /-- A mapping, its keys and values in turn; it is `whole` if its end was read. -/
  | mapping (place : Mark) (anchor : Option Nat) (parts : List Node) (whole : Bool)
  | alias (place : Mark) (anchor : Nat)  -- the node whose anchor has the given number
  deriving Repr, Inhabited

namespace Node

/-- Where a node starts. -/
def place : Node → Mark
  | .scalar place .. | .sequence place .. | .mapping place .. | .alias place .. => place

def nothing (place : Mark) : Node := .scalar place none none [] .plain

/-- Whether a node is a plain scalar without text. -/
def isNothing : Node → Bool
  | .scalar _ _ _ [] .plain => true
  | _ => false

mutual

def isWhole : Node → Bool
  | .scalar .. | .alias .. => true
  | .sequence _ _ items whole => whole && areWhole items
  | .mapping _ _ parts whole => whole && areWhole parts

def areWhole : List Node → Bool
  | [] => true
  | node :: rest => node.isWhole && areWhole rest

end

mutual

/-- The node with an anchor of the given number; the last one in the order of the text. -/
def anchored? (number : Nat) : Node → Option Node
  | node@(.scalar _ anchor ..) => if anchor = some number then some node else none
  | .alias .. => none
  | node@(.sequence _ anchor items _) =>
    match anchoredIn? number items with
    | some inner => some inner
    | none => if anchor = some number then some node else none
  | node@(.mapping _ anchor parts _) =>
    match anchoredIn? number parts with
    | some inner => some inner
    | none => if anchor = some number then some node else none

def anchoredIn? (number : Nat) : List Node → Option Node
  | [] => none
  | node :: rest =>
    match anchoredIn? number rest with
    | some later => some later
    | none => node.anchored? number

end

end Node

/-- What a text says: its first node, if it has any, and what is wrong with it, if anything.
A text without nodes is empty from `place` on. -/
structure Document where
  root : Option Node
  place : Mark := {}
  fault : Option Malformed := none
  deriving Repr

/-- The node an alias stands for; any other node stands for itself. -/
def Document.resolve? (document : Document) : Node → Option Node
  | .alias _ number => document.root.bind (·.anchored? number)
  | node => some node

end TreePlan.Yaml

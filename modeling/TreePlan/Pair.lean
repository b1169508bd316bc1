import TreePlan.Path

/-!
# Pairs of paths

A pair holds the two places that a walk compares: a source and the destination that has to
become like it. The walk goes down both sides in step, so the pair below a pair is formed by
joining one name to both sides.
-/

namespace TreePlan

/-- Corresponding places in the tree that is built and in the tree that is kept. -/
structure Pair where
  source : Path
  destination : Path
  deriving DecidableEq, Repr, Inhabited

namespace Pair

/-- The pair of the same path below both sides. -/
def join (pair : Pair) (name : Path) : Pair :=
  ⟨pair.source.join name, pair.destination.join name⟩

def child (pair : Pair) (name : Name) : Pair := pair.join ⟨name⟩

/-- Takes both sides from `base`; absolute sides are left alone. -/
def resolve (pair : Pair) (base : Path) : Pair :=
  ⟨base.join pair.source, base.join pair.destination⟩

def swap (pair : Pair) : Pair := ⟨pair.destination, pair.source⟩

def sameAs (a b : Pair) : Bool := a.source.sameAs b.source && a.destination.sameAs b.destination

def shown (pair : Pair) : String := s!"{pair.source.shown} -> {pair.destination.shown}"

@[simp] theorem source_child (pair : Pair) (name : Name) :
    (pair.child name).source = pair.source.child name := rfl

@[simp] theorem destination_child (pair : Pair) (name : Name) :
    (pair.child name).destination = pair.destination.child name := rfl

end Pair

end TreePlan

import TreePlan.Encoding
import TreePlan.Plan

/-!
# Status

How much there is to do for each pair, without the commands themselves. Every pair has a
session of its own, so its row does not depend on the others.
-/

namespace TreePlan

structure PairStatus where
  source : String
  destination : String
  copies : Nat
  removes : Nat
  mkdirs : Nat
  adds : Nat
  deletes : Nat
  conflict : Bool
  deriving DecidableEq, Repr

namespace PairStatus

def pending (row : PairStatus) : Bool :=
  0 < row.copies + row.removes + row.mkdirs + row.adds + row.deletes

/-- The row of a pair whose walk emitted and noted what is given. -/
def ofGathered (pair : Pair) (gathered : Gathered Unit) : PairStatus where
  source := pair.source.shown
  destination := pair.destination.shown
  copies := gathered.commands.countP fun
    | .copy .. => true
    | _ => false
  removes := gathered.commands.countP fun
    | .remove .. => true
    | _ => false
  mkdirs := gathered.commands.countP fun
    | .mkdir .. => true
    | _ => false
  adds := gathered.session.adds.size
  deletes := gathered.session.deletes.size
  conflict := gathered.session.conflict

def encode (row : PairStatus) : Json :=
  .record
    [("source", .text row.source), ("destination", .text row.destination),
     ("copies", .number row.copies), ("removes", .number row.removes),
     ("mkdirs", .number row.mkdirs), ("adds", .number row.adds),
     ("deletes", .number row.deletes), ("conflict", .bool row.conflict)]

end PairStatus

def pairStatus (rules : Rules) (budget : Nat) (pair : Pair) : Dialogue PairStatus := do
  let gathered ← (walk rules budget pair).gather {} #[]
  return .ofGathered pair gathered

/-- The rows of all pairs, or the first pair whose walk fails. -/
def statusRows {m : Type → Type} [Monad m]
    (reply : (r : Request) → m (Except Failure r.Reply)) (rules : Rules) (budget : Nat) :
    List Pair → m (Except (Pair × Failure) (List PairStatus))
  | [] => return .ok []
  | pair :: rest => do
    match ← (pairStatus rules budget pair).carryOut reply with
    | .error failure => return .error (pair, failure)
    | .ok row =>
      match ← statusRows reply rules budget rest with
      | .error failed => return .error failed
      | .ok rows => return .ok (row :: rows)

end TreePlan

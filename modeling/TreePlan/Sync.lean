import TreePlan.Run
import TreePlan.Walk

/-!
# Synchronising a list of pairs

`sync` walks through the pairs in order and then tells the version control, with as few
commands as possible: all deletions at once, then all additions. Where a file and a
directory changed places, one path is in both lists, so the deletions are committed in
between.
-/

namespace TreePlan

namespace Sync

/-- Walks through the pairs in order, each with a budget of its own. -/
def walkAll (rules : Rules) (budget : Nat) : List Pair → Dialogue Unit
  | [] => pure ()
  | pair :: rest => do
    .log (.reconciling pair)
    walk rules budget pair
    walkAll rules budget rest

/-- The commands for the version control that close a session. -/
def batches (rules : Rules) (session : Session) : List Command :=
  let deletes := session.deletes.toList
  let adds := session.adds.toList
  (if deletes = [] then []
    else .delete deletes :: (if session.conflict then [.commit rules.commitMessage deletes] else []))
  ++ (if adds = [] then [] else [.add adds])

def emitAll : List Command → Dialogue Unit
  | [] => pure ()
  | command :: rest => do
    .emit command
    emitAll rest

end Sync

/-- Plans all pairs and then the commands for the version control. The session that the
dialogue starts with has to be empty. -/
def sync (rules : Rules) (budget : Nat) (pairs : List Pair) : Dialogue Report := do
  Sync.walkAll rules budget pairs
  let gathered ← .review
  Sync.emitAll (Sync.batches rules gathered)
  -- The batches are counted too, so the session is looked up once more.
  let last ← .review
  let report := last.report
  .log (.finished report)
  return report

end TreePlan

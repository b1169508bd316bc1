import TreePlan.Sync

/-!
# Plans

A plan is everything a run would emit, kept together with its report. `Dialogue.gather`
turns a dialogue that emits and makes notes into one that only asks and logs, and that ends
with what was emitted and noted; if it fails, nothing is left of either.
-/

namespace TreePlan

/-- The result of a dialogue together with what it emitted and noted. -/
structure Gathered (α : Type) where
  value : α
  session : Session
  commands : Array Command
  deriving Repr

/-- Keeps the commands and notes of a dialogue instead of passing them on. The dialogue
goes on from the given session, after the given commands. -/
def Dialogue.gather {α : Type} : Dialogue α → Session → Array Command → Dialogue (Gathered α)
  | .done value, session, commands => .done ⟨value, session, commands⟩
  | .fail failure, _, _ => .fail failure
  | .call (.ask query) next, session, commands =>
    .call (.ask query) fun answer => (next answer).gather session commands
  | .call (.log record) next, session, commands =>
    .call (.log record) fun _ => (next ()).gather session commands
  | .call (.emit command) next, session, commands =>
    (next ()).gather session.countEmitted (commands.push command)
  | .call (.note n) next, session, commands => (next ()).gather (session.note n) commands
  | .call .review next, session, commands => (next session).gather session commands

structure Plan where
  commands : Array Command
  report : Report
  deriving DecidableEq, Repr

def plan (rules : Rules) (budget : Nat) (pairs : List Pair) : Dialogue Plan := do
  let gathered ← (sync rules budget pairs).gather {} #[]
  return ⟨gathered.commands, gathered.value⟩

end TreePlan

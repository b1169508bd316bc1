import TreePlan.Path

/-!
# Sessions

File operations are emitted as they are decided. What the version control has to be told is
gathered first, over all pairs of a run, so that one command can name many paths.
-/

namespace TreePlan

structure Session where
  conflict : Bool := false
  /-- The paths to put under version control, in the order in which they were queued. -/
  adds : Array Path := #[]
  /-- The paths to take out of version control, in the order in which they were queued. -/
  deletes : Array Path := #[]
  emitted : Nat := 0  -- how many commands the sink has accepted
  deriving DecidableEq, Repr, Inhabited

/-- One thing to keep in mind for the end of a run. -/
inductive Note where
  | add (path : Path)
  | delete (path : Path)
  | conflict
  deriving DecidableEq, Repr

namespace Session

def note (session : Session) : Note → Session
  | .add path => { session with adds := session.adds.push path }
  | .delete path => { session with deletes := session.deletes.push path }
  | .conflict => { session with conflict := true }

/-- The session after one more accepted command. -/
def countEmitted (session : Session) : Session :=
  { session with emitted := session.emitted + 1 }

end Session

/-- What a finished run has to say about itself. -/
structure Report where
  commands : Nat  -- how many commands were accepted, those for the version control included
  adds : Array Path
  deletes : Array Path
  conflict : Bool
  deriving DecidableEq, Repr, Inhabited

/-- The report on a run that ended with the given session. -/
def Session.report (session : Session) : Report :=
  ⟨session.emitted, session.adds, session.deletes, session.conflict⟩

end TreePlan

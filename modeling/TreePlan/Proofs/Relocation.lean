import TreePlan.Proofs.Path.Joined
import TreePlan.Plan

/-!
# Relocation

Pairs can be taken from a base before they are planned (`Pair.resolve`), or planned as they are
written where every path is taken from the base only when it is looked up. Taking paths from the
base commutes with joining names to them (`Path.join_join`), so the two walks say the same things
about corresponding paths.

* `resolve` takes all the paths in a query, a command, a report and so on from a base.
* `Dialogue.Moves` relates a dialogue to one that says the same with all its paths taken from the
  base; `moves_sync` and `moves_plan` relate the dialogues of written and of resolved pairs.
-/

namespace TreePlan

/-! ## All paths taken from a base -/

section
variable (base : Path)

def Query.resolve : Query → Query
  | .classify path => .classify (base.join path)
  | .list path => .list (base.join path)
  | .same a b => .same (base.join a) (base.join b)

def Command.resolve : Command → Command
  | .remove path recursive => .remove (base.join path) recursive
  | .copy source target => .copy (base.join source) (base.join target)
  | .mkdir path => .mkdir (base.join path)
  | .delete paths => .delete (paths.map base.join)
  | .commit message paths => .commit message (paths.map base.join)
  | .add paths => .add (paths.map base.join)

def Note.resolve : Note → Note
  | .add path => .add (base.join path)
  | .delete path => .delete (base.join path)
  | .conflict => .conflict

def Session.resolve (session : Session) : Session :=
  { session with adds := session.adds.map base.join, deletes := session.deletes.map base.join }

def Report.resolve (report : Report) : Report :=
  { report with adds := report.adds.map base.join, deletes := report.deletes.map base.join }

def Plan.resolve (plan : Plan) : Plan :=
  ⟨plan.commands.map (Command.resolve base), plan.report.resolve base⟩

def LogRecord.resolve : LogRecord → LogRecord
  | .reconciling pair => .reconciling (pair.resolve base)
  | .visiting source destination pair => .visiting source destination (pair.resolve base)
  | .typeConflict source destination path => .typeConflict source destination (base.join path)
  | .finished report => .finished (report.resolve base)

def Failure.resolve : Failure → Failure
  | .io path cause => .io (base.join path) cause
  | .brokenLink path => .brokenLink (base.join path)
  | .notText path => .notText (base.join path)
  | .emit cause => .emit cause
  | .exhausted => .exhausted

def Event.resolve : Event → Event
  | .asked query => .asked (query.resolve base)
  | .emitted command => .emitted (command.resolve base)
  | .logged record => .logged (record.resolve base)

def Task.resolve : Task → Task
  | .visit pair sourceGone destinationGone => .visit (pair.resolve base) sourceGone destinationGone
  | .resume pair source destination actions =>
      .resume (pair.resolve base) source destination actions

def Request.resolve : Request → Request
  | .ask query => .ask (query.resolve base)
  | .emit command => .emit (command.resolve base)
  | .log record => .log (record.resolve base)
  | .note n => .note (n.resolve base)
  | .review => .review

/-- No answer has a path in it: kinds and names are the same from everywhere. -/
def Query.moveAnswer : (query : Query) → query.Answer → (query.resolve base).Answer
  | .classify _, kind => kind
  | .list _, names => names
  | .same .., equal => equal

/-- Of all replies only a session holds paths. -/
def Request.moveReply : (r : Request) → r.Reply → (r.resolve base).Reply
  | .ask query, answer => query.moveAnswer base answer
  | .emit _, reply | .log _, reply | .note _, reply => reply
  | .review, session => session.resolve base

theorem Session.resolve_note (session : Session) (n : Note) :
    (session.note n).resolve base = (session.resolve base).note (n.resolve base) := by
  cases n with
  | add path | delete path => simp [note, Session.resolve, Note.resolve]
  | conflict => rfl

theorem Session.resolve_empty : Session.resolve base {} = {} := by
  simp [Session.resolve]

end

/-! ## Dialogues about the same things elsewhere -/

/-- The second dialogue says what the first one says, with all its paths taken from the base, and
`f` makes its result of that of the first one. -/
inductive Dialogue.Moves (base : Path) {α β : Type} (f : α → β) : Dialogue α → Dialogue β → Prop
  | done (value : α) : Moves base f (.done value) (.done (f value))
  | fail (failure : Failure) : Moves base f (.fail failure) (.fail (failure.resolve base))
  | call {r : Request} {next : r.Reply → Dialogue α} {moved : (r.resolve base).Reply → Dialogue β}
      (h : ∀ reply, Moves base f (next reply) (moved (r.moveReply base reply))) :
      Moves base f (.call r next) (.call (r.resolve base) moved)

namespace Dialogue.Moves

variable {base : Path} {α β γ δ : Type}

theorem request (r : Request) :
    Moves base (r.moveReply base) (.request r) (.request (r.resolve base)) :=
  .call fun reply => .done reply

theorem bind {f : α → β} {g : γ → δ} {d : Dialogue α} {e : Dialogue β} {next : α → Dialogue γ}
    {moved : β → Dialogue δ} (h : Moves base f d e)
    (hnext : ∀ value, Moves base g (next value) (moved (f value))) :
    Moves base g (d >>= next) (e >>= moved) := by
  induction h with
  | done value => exact hnext value
  | fail failure => exact .fail failure
  | call _ ih => exact .call ih

end Dialogue.Moves

/-! ## The walk from elsewhere -/

section
open Dialogue
variable {base : Path} {rules : Rules}

theorem moves_requireText (hbase : base.isText = true) (path : Path) :
    Moves base id (Walk.requireText path) (Walk.requireText (base.join path)) := by
  have htext : (base.join path).isText = true ↔ path.isText = true := Path.isText_join_iff hbase
  unfold Walk.requireText
  by_cases h : path.isText = true
  · rw [if_pos h, if_pos (htext.mpr h)]
    exact .done ()
  · rw [if_neg h, if_neg (mt htext.mp h)]
    exact .fail (.notText path)

theorem moves_kindAt (gone : Bool) (path : Path) :
    Moves base id (Walk.kindAt gone path) (Walk.kindAt gone (base.join path)) := by
  cases gone with
  | true => exact .done _
  | false => exact .request (.ask (.classify path))

theorem moves_entriesAt (kind : Kind) (path : Path) :
    Moves base id (Walk.entriesAt kind path) (Walk.entriesAt kind (base.join path)) := by
  unfold Walk.entriesAt
  split
  · exact .request (.ask (.list path))
  · exact .done _

theorem moves_childNames (pair : Pair) (source destination : Kind) :
    Moves base id (Walk.childNames rules pair source destination)
      (Walk.childNames rules (pair.resolve base) source destination) := by
  apply (moves_entriesAt source pair.source).bind
  intro inSource
  apply (moves_entriesAt destination pair.destination).bind
  intro inDestination
  exact .done _

theorem resolve_visits (pair : Pair) (source destination : Kind) (names : List Name) :
    (Walk.visits pair source destination names).map (Task.resolve base) =
      Walk.visits (pair.resolve base) source destination names := by
  unfold Walk.visits
  rw [List.map_map]
  apply List.map_congr_left
  intro name _
  show Task.visit ((pair.child name).resolve base) _ _ = _
  rw [Pair.resolve_child]

theorem moves_perform (pair : Pair) (source destination : Kind) (actions : List Action) :
    Moves base (List.map (Task.resolve base)) (Walk.perform rules pair source destination actions)
      (Walk.perform rules (pair.resolve base) source destination actions) := by
  have hcopy : Moves base id (emit (.copy pair.source pair.destination))
      (emit (.copy (base.join pair.source) (base.join pair.destination))) :=
    .request (.emit (.copy pair.source pair.destination))
  induction actions with
  | nil => exact .done []
  | cons action rest ih =>
      cases action with
      | remove =>
          apply (Moves.request (.emit (.remove pair.destination (destination = .directory)))).bind
          exact fun _ => ih
      | copy => exact hcopy.bind fun _ => ih
      | copyIfDifferent =>
          apply (Moves.request (.ask (.same pair.source pair.destination))).bind
          intro equal
          cases equal with
          | true => exact ih
          | false => exact hcopy.bind fun _ => ih
      | mkdir =>
          apply (Moves.request (.emit (.mkdir pair.destination))).bind
          exact fun _ => ih
      | queueAdd =>
          apply (Moves.request (.note (.add pair.destination))).bind
          exact fun _ => ih
      | queueDelete =>
          apply (Moves.request (.note (.delete pair.destination))).bind
          exact fun _ => ih
      | flagConflict =>
          apply (Moves.request (.log (.typeConflict source destination pair.destination))).bind
          intro _
          apply (Moves.request (.note .conflict)).bind
          exact fun _ => ih
      | recurse =>
          apply (moves_childNames pair source destination).bind
          intro names
          -- The tasks are about the same names on both sides.
          let tasks := Walk.visits pair source destination names ++
            [.resume pair source destination rest]
          have hdone : Moves base (List.map (Task.resolve base)) (.done tasks)
              (.done (tasks.map (Task.resolve base))) := .done tasks
          rw [List.map_append, resolve_visits] at hdone
          exact hdone

theorem moves_step (hbase : base.isText = true) (t : Task) :
    Moves base (List.map (Task.resolve base)) (Walk.step rules t)
      (Walk.step rules (t.resolve base)) := by
  cases t with
  | resume pair source destination actions => exact moves_perform pair source destination actions
  | visit pair sourceGone destinationGone =>
      apply (moves_requireText hbase pair.source).bind
      intro _
      apply (moves_requireText hbase pair.destination).bind
      intro _
      apply (moves_kindAt sourceGone pair.source).bind
      intro source
      apply (moves_kindAt destinationGone pair.destination).bind
      intro destination
      apply (Moves.request (.log (.visiting source destination pair))).bind
      intro _
      exact moves_perform pair source destination _

theorem moves_workOff (hbase : base.isText = true) (budget : Nat) (tasks : List Task) :
    Moves base id (Walk.workOff rules budget tasks)
      (Walk.workOff rules budget (tasks.map (Task.resolve base))) := by
  induction budget generalizing tasks with
  | zero =>
      cases tasks with
      | nil => exact .done ()
      | cons t rest => exact .fail .exhausted
  | succ budget ih =>
      cases tasks with
      | nil => exact .done ()
      | cons t rest =>
          apply (moves_step hbase t).bind
          intro first
          rw [← List.map_append]
          exact ih (first ++ rest)

theorem moves_walkAll (hbase : base.isText = true) (budget : Nat) (pairs : List Pair) :
    Moves base id (Sync.walkAll rules budget pairs)
      (Sync.walkAll rules budget (pairs.map (·.resolve base))) := by
  induction pairs with
  | nil => exact .done ()
  | cons pair pairs ih =>
      apply (Moves.request (.log (.reconciling pair))).bind
      intro _
      apply (moves_workOff hbase budget [.visit pair false false]).bind
      exact fun _ => ih

theorem resolve_batches (session : Session) :
    (Sync.batches rules session).map (Command.resolve base) =
      Sync.batches rules (session.resolve base) := by
  have hdeletes : (session.resolve base).deletes.toList = session.deletes.toList.map base.join := by
    simp [Session.resolve]
  have hadds : (session.resolve base).adds.toList = session.adds.toList.map base.join := by
    simp [Session.resolve]
  have hconflict : (session.resolve base).conflict = session.conflict := rfl
  simp only [Sync.batches, hdeletes, hadds, hconflict, List.map_eq_nil_iff, List.map_append]
  congr 1
  · by_cases hnone : session.deletes.toList = []
    · simp [hnone]
    · cases hflag : session.conflict <;> simp [hnone, Command.resolve]
  · by_cases hnone : session.adds.toList = []
    · simp [hnone]
    · simp [hnone, Command.resolve]

theorem moves_emitAll (commands : List Command) :
    Moves base id (Sync.emitAll commands)
      (Sync.emitAll (commands.map (Command.resolve base))) := by
  induction commands with
  | nil => exact .done ()
  | cons command commands ih =>
      apply (Moves.request (.emit command)).bind
      exact fun _ => ih

/-- **A synchronisation of pairs from elsewhere** says what one of the pairs as written says. -/
theorem moves_sync (hbase : base.isText = true) (budget : Nat) (pairs : List Pair) :
    Moves base (Report.resolve base) (sync rules budget pairs)
      (sync rules budget (pairs.map (·.resolve base))) := by
  apply (moves_walkAll hbase budget pairs).bind
  intro _
  apply (Moves.request .review).bind
  intro gathered
  have hemit : Moves base id (Sync.emitAll (Sync.batches rules gathered)) _ :=
    moves_emitAll (Sync.batches rules gathered)
  rw [resolve_batches] at hemit
  apply hemit.bind
  intro _
  apply (Moves.request .review).bind
  intro last
  apply (Moves.request (.log (.finished last.report))).bind
  exact fun _ => .done _

/-! ## Plans -/

/-- What was gathered, with all its paths taken from the base. -/
def Gathered.resolve (base : Path) {α β : Type} (f : α → β) (gathered : Gathered α) : Gathered β :=
  ⟨f gathered.value, gathered.session.resolve base,
    gathered.commands.map (Command.resolve base)⟩

theorem Dialogue.Moves.gather {α β : Type} {f : α → β} {d : Dialogue α} {e : Dialogue β}
    (h : Moves base f d e) (session : Session) (commands : Array Command) :
    Moves base (Gathered.resolve base f) (d.gather session commands)
      (e.gather (session.resolve base) (commands.map (Command.resolve base))) := by
  induction h generalizing session commands with
  | done value => exact .done (Gathered.mk value session commands)
  | fail failure => exact .fail failure
  | @call r next moved _ ih =>
      cases r with
      | ask query => exact .call fun answer => ih answer session commands
      | log record => exact .call fun _ => ih () session commands
      | emit command =>
          have hnext := ih () session.countEmitted (commands.push command)
          rw [Array.map_push] at hnext
          exact hnext
      | note n =>
          have hnext := ih () (session.note n) commands
          rw [Session.resolve_note] at hnext
          exact hnext
      | review => exact ih session session commands

/-- A plan of pairs from elsewhere says what the plan of the pairs as written says. -/
theorem moves_plan (hbase : base.isText = true) (budget : Nat) (pairs : List Pair) :
    Moves base (Plan.resolve base) (plan rules budget pairs)
      (plan rules budget (pairs.map (·.resolve base))) := by
  have hsync : Moves base (Report.resolve base) (sync rules budget pairs)
      (sync rules budget (pairs.map (·.resolve base))) := moves_sync hbase budget pairs
  have hgather := hsync.gather {} #[]
  rw [Session.resolve_empty, Array.map_empty] at hgather
  apply hgather.bind
  exact fun gathered => .done _

end

end TreePlan

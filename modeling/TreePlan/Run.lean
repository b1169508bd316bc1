import TreePlan.Dialogue
import TreePlan.Sink

/-!
# Runs

A run leads a dialogue with a file system and a sink, and keeps all that happened: every
query in the order in which it was asked, failed ones included, every command the sink
accepted, and every log record. What was kept before a failure stays.
-/

namespace TreePlan

inductive Event where
  | asked (query : Query)
  | emitted (command : Command)
  | logged (record : LogRecord)
  deriving DecidableEq, Repr

/-- The state of a run: both partners, the notes, and what happened so far. -/
structure Run (σ τ : Type) where
  files : σ
  sink : τ
  session : Session := {}
  events : Array Event := #[]

namespace Run

variable {σ τ : Type}

def happened (run : Run σ τ) (event : Event) : Run σ τ :=
  { run with events := run.events.push event }

def queries (run : Run σ τ) : List Query :=
  run.events.toList.filterMap fun
    | .asked query => some query
    | _ => none

def records (run : Run σ τ) : List LogRecord :=
  run.events.toList.filterMap fun
    | .logged record => some record
    | _ => none

/-- The commands accepted, in order. -/
def commands (run : Run σ τ) : List Command :=
  run.events.toList.filterMap fun
    | .emitted command => some command
    | _ => none

@[simp] theorem commands_happened_logged (run : Run σ τ) (record : LogRecord) :
    (run.happened (.logged record)).commands = run.commands := by
  simp [commands, happened]

@[simp] theorem records_happened_logged (run : Run σ τ) (record : LogRecord) :
    (run.happened (.logged record)).records = run.records ++ [record] := by
  simp [records, happened]

/-- How a file system and a sink reply to a request. -/
def reply (fs : FileSystem σ) (out : Sink τ) :
    (r : Request) → Run σ τ → Except Failure r.Reply × Run σ τ
  | .ask query, run =>
    let (answer, files) := fs.answer query run.files
    (answer, { run with files, events := run.events.push (.asked query) })
  | .emit command, run =>
    match out.accept command run.sink with
    | (.ok (), sink) =>
      (.ok (), { run with
        sink
        session := run.session.countEmitted
        events := run.events.push (.emitted command) })
    | (.error cause, sink) => (.error (.emit cause), { run with sink })
  | .log record, run => (.ok (), run.happened (.logged record))
  | .note n, run => (.ok (), { run with session := run.session.note n })
  | .review, run => (.ok run.session, run)

end Run

namespace Dialogue

variable {σ τ α : Type}

/-- In a state monad, the second step starts where the first one ended. -/
theorem bind_apply {ρ β γ : Type} (x : StateM ρ β) (f : β → StateM ρ γ) (start : ρ) :
    (x >>= f) start = f (x start).1 (x start).2 := rfl

/-- Leads a dialogue with a file system and a sink, from the state `start` on. -/
def run (fs : FileSystem σ) (out : Sink τ) (d : Dialogue α) (start : Run σ τ) :
    Except Failure α × Run σ τ :=
  d.carryOut (m := StateM (Run σ τ)) (Run.reply fs out) start

@[simp] theorem run_done (fs : FileSystem σ) (out : Sink τ) (value : α) (start : Run σ τ) :
    (Dialogue.done value).run fs out start = (.ok value, start) := rfl

@[simp] theorem run_fail (fs : FileSystem σ) (out : Sink τ) (failure : Failure)
    (start : Run σ τ) :
    (Dialogue.fail failure : Dialogue α).run fs out start = (.error failure, start) := rfl

/-- A run goes on with the reply to a request, and ends with the failure of one. -/
theorem run_call (fs : FileSystem σ) (out : Sink τ) (r : Request)
    (next : r.Reply → Dialogue α) (start : Run σ τ) :
    (Dialogue.call r next).run fs out start =
      match Run.reply fs out r start with
      | (.ok answer, after) => (next answer).run fs out after
      | (.error failure, after) => (.error failure, after) := by
  rw [run, carryOut, bind_apply]
  rcases Run.reply fs out r start with ⟨_ | _, _⟩ <;> rfl

/-- A single request ends with its reply. -/
@[simp] theorem run_request (fs : FileSystem σ) (out : Sink τ) (r : Request) (start : Run σ τ) :
    (request r).run fs out start = Run.reply fs out r start := by
  rw [request, run_call]
  rcases Run.reply fs out r start with ⟨_ | _, _⟩ <;> rfl

@[simp] theorem run_log (fs : FileSystem σ) (out : Sink τ) (record : LogRecord)
    (start : Run σ τ) :
    (log record).run fs out start = (.ok (), start.happened (.logged record)) :=
  run_request ..

@[simp] theorem run_note (fs : FileSystem σ) (out : Sink τ) (n : Note) (start : Run σ τ) :
    (note n).run fs out start = (.ok (), { start with session := start.session.note n }) :=
  run_request ..

@[simp] theorem run_review (fs : FileSystem σ) (out : Sink τ) (start : Run σ τ) :
    review.run fs out start = (.ok start.session, start) :=
  run_request ..

/-- A run of one dialogue after another is one run after another. -/
theorem run_bind {β : Type} (fs : FileSystem σ) (out : Sink τ) (d : Dialogue α)
    (f : α → Dialogue β) (start : Run σ τ) :
    (d >>= f).run fs out start =
      match d.run fs out start with
      | (.ok value, after) => (f value).run fs out after
      | (.error failure, after) => (.error failure, after) := by
  induction d generalizing start with
  | done => rfl
  | fail => rfl
  | call r next ih =>
    rw [call_bind, run_call, run_call]
    rcases Run.reply fs out r start with ⟨_ | answer, after⟩
    · rfl
    · exact ih answer after

/-- One dialogue after another gets a result exactly if both get one. -/
theorem run_bind_ok {β : Type} {fs : FileSystem σ} {out : Sink τ} {d : Dialogue α}
    {f : α → Dialogue β} {start finish : Run σ τ} {result : β} :
    (d >>= f).run fs out start = (.ok result, finish) ↔
      ∃ value mid, d.run fs out start = (.ok value, mid) ∧
        (f value).run fs out mid = (.ok result, finish) := by
  rw [run_bind]
  rcases d.run fs out start with ⟨failure | value, mid⟩
  · simp
  · constructor
    · intro h
      exact ⟨value, mid, rfl, h⟩
    · rintro ⟨_, _, ⟨⟩, h⟩
      exact h

end Dialogue

end TreePlan

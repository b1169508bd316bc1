import TreePlan.Command
import TreePlan.Log
import TreePlan.Query

/-!
# Dialogues

A walk is described by what it says: it asks a query, emits a command, writes a log record,
makes a note for the end of the run, or looks up its notes, and goes on as the reply tells.
A `Dialogue α` is the tree of all such conversations that end with a value of type `α` or
with a failure. It says nothing about who replies, so one walk serves a file system in
memory, a table of answers, and a real disk, and what is shown of the tree holds for each.

`Dialogue.carryOut` leads the conversation with a given partner, in any monad. The first
failure, the walk's own or one in a reply, ends it.
-/

namespace TreePlan

/-- One thing a walk says to its partner. -/
inductive Request where
  | ask (query : Query)  -- ask the file system
  | emit (command : Command)  -- hand a command to the sink
  | log (record : LogRecord)
  | note (note : Note)  -- note something for the end of the run
  | review  -- look up all that was noted
  deriving DecidableEq, Repr

/-- What a request is replied with. -/
abbrev Request.Reply : Request → Type
  | .ask query => query.Answer
  | .emit _ | .log _ | .note _ => Unit
  | .review => Session

/-- The conversations of a walk that ends with a value of type `α`. -/
inductive Dialogue (α : Type) where
  | done (value : α)  -- the end, with a result
  | fail (failure : Failure)  -- the end, without one
  /-- One request, and how to go on with each reply. -/
  | call (request : Request) (next : request.Reply → Dialogue α)

namespace Dialogue

/-- One dialogue after another. -/
def bind {α β : Type} (d : Dialogue α) (f : α → Dialogue β) : Dialogue β :=
  match d with
  | .done value => f value
  | .fail failure => .fail failure
  | .call request next => .call request fun reply => (next reply).bind f

instance : Monad Dialogue where
  pure := .done
  bind := .bind

def request (r : Request) : Dialogue r.Reply := .call r .done

def classify (path : Path) : Dialogue Kind := request (.ask (.classify path))

def list (path : Path) : Dialogue (List Name) := request (.ask (.list path))

def same (a b : Path) : Dialogue Bool := request (.ask (.same a b))

def emit (command : Command) : Dialogue Unit := request (.emit command)

def log (record : LogRecord) : Dialogue Unit := request (.log record)

def note (n : Note) : Dialogue Unit := request (.note n)

def review : Dialogue Session := request .review

/-! ### The laws of sequencing -/

section
variable {α β : Type}

@[simp] theorem pure_eq_done (value : α) : (pure value : Dialogue α) = .done value := rfl

@[simp] theorem done_bind (value : α) (f : α → Dialogue β) : Dialogue.done value >>= f = f value :=
  rfl

@[simp] theorem fail_bind (failure : Failure) (f : α → Dialogue β) :
    Dialogue.fail failure >>= f = .fail failure := rfl

@[simp] theorem call_bind (r : Request) (next : r.Reply → Dialogue α) (f : α → Dialogue β) :
    Dialogue.call r next >>= f = .call r fun reply => next reply >>= f := rfl

theorem bind_done (d : Dialogue α) : d >>= Dialogue.done = d := by
  induction d with
  | done => rfl
  | fail => rfl
  | call r next ih => exact congrArg (Dialogue.call r) (funext ih)

theorem bind_bind {γ : Type} (d : Dialogue α) (f : α → Dialogue β) (g : β → Dialogue γ) :
    d >>= f >>= g = d >>= fun value => f value >>= g := by
  induction d with
  | done => rfl
  | fail => rfl
  | call r next ih => exact congrArg (Dialogue.call r) (funext ih)

end

instance : LawfulMonad Dialogue := LawfulMonad.mk' Dialogue bind_done (fun _ _ => rfl) bind_bind

/-! ### Leading the conversation -/

/-- Leads the conversation with a partner that replies in the monad `m`. -/
def carryOut {m : Type → Type} [Monad m] (reply : (r : Request) → m (Except Failure r.Reply))
    {α : Type} : Dialogue α → m (Except Failure α)
  | .done value => pure (.ok value)
  | .fail failure => pure (.error failure)
  | .call r next => do
    match ← reply r with
    | .ok answer => carryOut reply (next answer)
    | .error failure => pure (.error failure)

end Dialogue

end TreePlan

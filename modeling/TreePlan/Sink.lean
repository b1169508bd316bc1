import TreePlan.Command
import TreePlan.Failure

/-!
# Sinks

A sink takes the commands of a plan one by one, and may refuse any of them. Two are here:

* `Sink.collect` keeps the commands;
* `Sink.script` writes their lines to an output that holds a limited number of bytes. A
  line that does not fit is torn where the room ends, and nothing is flushed for it.
-/

namespace TreePlan

/-- A sink: whether it takes a command, and what it is like afterwards. -/
structure Sink (τ : Type) where
  accept : Command → τ → Except EmitError Unit × τ

namespace Sink

/-- The sink takes every command. -/
def AcceptsAll {τ : Type} (out : Sink τ) : Prop :=
  ∀ command state, ∃ next, out.accept command state = (.ok (), next)

/-- Keeps the commands, at most `limit` of them if there is a limit. -/
def collect (limit : Option Nat) : Sink (Array Command) where
  accept command kept :=
    match limit with
    | none => (.ok (), kept.push command)
    | some most =>
      if kept.size < most then (.ok (), kept.push command) else (.error .sinkFull, kept)

theorem acceptsAll_collect : (collect none).AcceptsAll := fun _ _ => ⟨_, rfl⟩

end Sink

/-! ### Scripts -/

/-- What an output does when its room is used up. -/
inductive WhenFull where
  | refuse  -- a write fails
  | takeNothing  -- a write takes nothing, without saying that it failed
  | failFlush  -- a write fails, and so does every flush from then on
  deriving DecidableEq, Repr

/-- How much an output takes. -/
structure Room where
  bytes : Option Nat := none  -- the number of bytes it takes in all, `none` for no limit
  whenFull : WhenFull := .refuse
  deriving DecidableEq, Repr

/-- An output and what it has received. -/
structure Output where
  parts : List Bytes := []  -- the parts received, the latest first
  size : Nat := 0  -- how many bytes that is
  flushes : Nat := 0  -- how often the output was flushed, failed flushes included
  deriving DecidableEq, Repr

namespace Output

/-- The bytes an output has received. -/
def received (out : Output) : Bytes := out.parts.reverse.flatten

/-- Writes all bytes of `text`, or as many as fit. -/
def write (room : Room) (text : Bytes) (out : Output) : Except EmitError Unit × Output :=
  let fits := match room.bytes with
    | none => text
    | some most => text.take (most - out.size)
  -- What fits is received, even if it is only the start of a line.
  let after := { out with parts := fits :: out.parts, size := out.size + fits.length }
  if fits.length = text.length then (.ok (), after)
  else
    (.error (if room.whenFull = .takeNothing then .nothingWritten else .writerFull), after)

def flush (room : Room) (out : Output) : Except EmitError Unit × Output :=
  let after := { out with flushes := out.flushes + 1 }
  match room.bytes with
  | some most =>
    if room.whenFull = .failFlush && most ≤ out.size then (.error .flushFailed, after)
    else (.ok (), after)
  | none => (.ok (), after)

end Output

/-- Writes one line for each command and flushes after it, so that a later failure leaves
every earlier line visible. -/
def Sink.script (room : Room) : Sink Output where
  accept command out :=
    match out.write room command.scriptLine with
    | (.ok (), written) => written.flush room
    | (.error failure, written) => (.error failure, written)

end TreePlan

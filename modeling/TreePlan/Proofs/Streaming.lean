import TreePlan.Proofs.Faithful
import TreePlan.Proofs.Status

/-!
# Streaming and collecting

A plan can be handed over command by command, or kept until it is complete. A dialogue cannot tell
the difference: with two sinks that take every command it runs alike (`Dialogue.run_beside`), and
what a sink has kept is made of the commands it took (`Dialogue.run_keeps`). So the script that is
streamed is the script of the commands that are collected, also of those before a failure, and a
failure comes before anything was said to the version control (`Sync.operations_of_error`).
-/

namespace TreePlan

variable {σ τ τ' α : Type} {out : Sink τ} {other : Sink τ'} {rules : Rules}

/-! ## Two sinks -/

/-- Two runs with sinks of their own that are alike otherwise. -/
structure Run.Beside (one : Run σ τ) (two : Run σ τ') : Prop where
  files : one.files = two.files
  session : one.session = two.session
  events : one.events = two.events

theorem Run.Beside.commands {one : Run σ τ} {two : Run σ τ'} (h : one.Beside two) :
    one.commands = two.commands := by
  rw [Run.commands, Run.commands, h.events]

theorem Run.Beside.reply (fs : FileSystem σ) (hout : out.AcceptsAll) (hother : other.AcceptsAll)
    {one : Run σ τ} {two : Run σ τ'} (h : one.Beside two) (r : Request) :
    (Run.reply fs out r one).1 = (Run.reply fs other r two).1 ∧
      (Run.reply fs out r one).2.Beside (Run.reply fs other r two).2 := by
  obtain ⟨files, sink, session, events⟩ := one
  obtain ⟨_, sink', _, _⟩ := two
  obtain ⟨rfl, rfl, rfl⟩ := h
  cases r with
  | ask query => exact ⟨rfl, rfl, rfl, rfl⟩
  | emit command =>
      obtain ⟨next, haccept⟩ := hout command sink
      obtain ⟨next', haccept'⟩ := hother command sink'
      simp only [Run.reply, haccept, haccept']
      exact ⟨trivial, rfl, rfl, rfl⟩
  | log | note | review => exact ⟨rfl, rfl, rfl, rfl⟩

/-- **No decision depends on the sink**, as long as it takes every command. -/
theorem Dialogue.run_beside (fs : FileSystem σ) (hout : out.AcceptsAll) (hother : other.AcceptsAll)
    (d : Dialogue α) {one : Run σ τ} {two : Run σ τ'} (h : one.Beside two) :
    (d.run fs out one).1 = (d.run fs other two).1 ∧
      (d.run fs out one).2.Beside (d.run fs other two).2 :=
  (d.only_true.run_related Run.Beside (fun r _ _ _ h => h.reply fs hout hother r) h).2

/-! ## What a sink keeps -/

/-- The sink takes every command, and goes on to be `kept` for the commands it took. -/
def Sink.Keeps (out : Sink τ) (kept : List Command → τ → Prop) : Prop :=
  ∀ commands state, kept commands state → ∀ command, ∃ next,
    out.accept command state = (.ok (), next) ∧ kept (commands ++ [command]) next

theorem Dialogue.run_keeps (fs : FileSystem σ) {kept : List Command → τ → Prop}
    (hout : out.Keeps kept) (d : Dialogue α) {start : Run σ τ}
    (h : kept start.commands start.sink) :
    kept (d.run fs out start).2.commands (d.run fs out start).2.sink := by
  refine d.only_true.keeps (fun run => kept run.commands run.sink) (fun r _ run h => ?_) h
  cases r with
  | emit command =>
      obtain ⟨after, haccept, hafter⟩ := hout _ _ h command
      simpa [Run.reply, haccept, Run.commands] using hafter
  | ask | log | note | review => simpa [Run.reply, Run.commands, Run.happened] using h

namespace Sink

theorem keeps_collect : (collect none).Keeps fun commands kept => kept = commands.toArray := by
  rintro commands _ rfl command
  exact ⟨_, rfl, by simp⟩

/-- An output without limit takes every command, with its line. -/
theorem exists_accept_script (command : Command) (out : Output) :
    ∃ next, (script {}).accept command out = (.ok (), next) ∧
      next.received = out.received ++ command.scriptLine := by
  have hok := accept_unlimited command out
  have hreceived := received_accept hok
  rcases haccept : (script {}).accept command out with ⟨answer, next⟩
  rw [haccept] at hok hreceived
  obtain rfl : answer = .ok () := hok
  exact ⟨next, rfl, hreceived⟩

theorem acceptsAll_script : (script {}).AcceptsAll := by
  intro command out
  obtain ⟨next, haccept, -⟩ := exists_accept_script command out
  exact ⟨next, haccept⟩

theorem keeps_script :
    (script {}).Keeps fun commands out => out.received = TreePlan.script commands := by
  intro commands out hreceived command
  obtain ⟨next, haccept, hnext⟩ := exists_accept_script command out
  refine ⟨next, haccept, ?_⟩
  show next.received = TreePlan.script (commands ++ [command])
  rw [hnext, hreceived, TreePlan.script, TreePlan.script, List.flatMap_append,
    List.flatMap_singleton]

theorem keeps_watch (hout : out.AcceptsAll) :
    out.watch.Keeps fun commands state => state.1 = commands := by
  rintro _ ⟨_, state⟩ rfl command
  obtain ⟨next, haccept⟩ := hout command state
  exact ⟨_, accept_watch haccept, rfl⟩

end Sink

/-! ## Synchronisations -/

section
variable (fs : FileSystem σ) (rules : Rules) (budget : Nat) (pairs : List Pair)

/-- What a synchronisation has emitted is text, and its report is text. -/
theorem Sync.isText_of_acceptsAll (hout : out.AcceptsAll) (files : σ) (sink : τ) :
    let outcome := (sync rules budget pairs).run fs out ⟨files, sink, {}, #[]⟩
    (∀ command ∈ outcome.2.commands, command.IsText) ∧
      ∀ report, outcome.1 = .ok report → report.IsText := by
  intro outcome
  let start : Run σ (List Command × τ) := ⟨files, ([], sink), {}, #[]⟩
  let watched := (sync rules budget pairs).run fs out.watch start
  have hstart : start.Faithful := Run.faithful_start files sink
  have hwatch : outcome = (watched.1, watched.2.unwatch) :=
    Dialogue.run_watch (sync rules budget pairs) start
  have hhanded : watched.2.sink.1 = watched.2.commands :=
    Dialogue.run_keeps fs (Sink.keeps_watch hout) (sync rules budget pairs) rfl
  have hfaithful : watched.2.Faithful := faithful_sync budget pairs hstart
  rw [hwatch]
  constructor
  · intro command hcommand
    apply hfaithful.handed
    rw [hhanded]
    exact hcommand
  · intro report hok
    exact isText_report hstart (Prod.ext hok rfl)

/-- Nothing was said to the version control before a failure. -/
theorem Sync.operations_of_error (hout : out.AcceptsAll) {files : σ} {sink : τ} {failure : Failure}
    {finish : Run σ τ}
    (h : (sync rules budget pairs).run fs out ⟨files, sink, {}, #[]⟩ = (.error failure, finish)) :
    ∀ command ∈ finish.commands, command.isVersionControl = false := by
  intro command hcommand
  have honly : Dialogue.Only Request.OfWalk (walkAll rules budget pairs) := only_walkAll pairs
  have hwalks := honly.commands fs out ⟨files, sink, {}, #[]⟩ command
  rw [walkAll_error_of_sync_error hout h] at hwalks
  exact (hwalks hcommand).resolve_left List.not_mem_nil

end

end TreePlan

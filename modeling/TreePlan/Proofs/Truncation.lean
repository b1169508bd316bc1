import TreePlan.Proofs.Batches
import TreePlan.Table

/-!
# Runs that are broken off

A run ends with its first failure. Nothing is tried again and nothing is passed over, so what
a failure leaves of a run is a prefix of the run that would have been without it. Two things
can fail here: queries, by `FileSystem.withFaults`, and the sink, which takes only so many
commands.

* `Truncates` says what is left of a run: the events up to the first query that fails, that
  query included, or up to the first command for which there is no room, that command left
  out, whichever comes first; and the failure that ends the run.
* `Dialogue.leaves` takes one step for each request, and by induction goes through any dialogue.
* `Sync.Progress` tells how far a synchronisation got: through all pairs, or into one of them.

`sync_truncates` puts all of it together.
-/

namespace TreePlan

/-- The file system in which some queries fail, each time they are asked. -/
def FileSystem.withFaults {σ : Type} (fs : FileSystem σ) (fault : Query → Option Failure) :
    FileSystem σ where
  answer q files :=
    match fault q with
    | some failure => (.error failure, files)
    | none => fs.answer q files

/-- The failure of a query in a table. Of two files to compare the first one is looked at
first. -/
def Table.fault? (table : Table) : Query → Option Failure
  | .classify path => table.faults.lookup (.classify, path)
  | .list path => table.faults.lookup (.list, path)
  | .same a b => (table.faults.lookup (.same, a)).or (table.faults.lookup (.same, b))

/-- The faults of a table, each of one question on one path, are faults of the file system that
the table is without them. -/
theorem Table.fileSystem_eq_withFaults (table : Table) :
    table.fileSystem = { table with faults := [] }.fileSystem.withFaults table.fault? := by
  have hanswer : ∀ q, table.answer q =
      match table.fault? q with
      | some failure => .error failure
      | none => { table with faults := [] }.answer q := by
    intro q
    cases q with
    | classify path =>
        simp only [answer, check, fault?]
        cases table.faults.lookup (Question.classify, path) <;> rfl
    | list path =>
        simp only [answer, check, fault?]
        cases table.faults.lookup (Question.list, path) <;> rfl
    | same a b =>
        simp only [answer, check, fault?]
        cases table.faults.lookup (Question.same, a) <;>
          cases table.faults.lookup (Question.same, b) <;> rfl
  simp only [fileSystem, FileSystem.ofAnswers, FileSystem.withFaults, FileSystem.mk.injEq]
  funext q files
  rw [hanswer q]
  cases table.fault? q <;> rfl

/-! ## What is left of a run -/

/-- The command that an event is the acceptance of. -/
def Event.command? : Event → Option Command
  | .emitted command => some command
  | _ => none

/-- Nothing among the events breaks a run off: no query of them fails, and there is room for
all their commands. -/
structure Passes (fault : Query → Option Failure) (room : Nat) (events : List Event) : Prop where
  faultless : ∀ query, .asked query ∈ events → fault query = none
  fits : (events.filterMap Event.command?).length ≤ room

/-- `Truncates fault room events result left ending`: of a run with the given events and the
given result, `left` and `ending` remain when some queries fail and there is room for `room`
commands. -/
inductive Truncates {α : Type} (fault : Query → Option Failure) (room : Nat) (events : List Event)
    (result : Except Failure α) : List Event → Except Failure α → Prop
  /-- Nothing breaks the run off. -/
  | whole (h : Passes fault room events) : Truncates fault room events result events result
  /-- The run ends with the first query that fails. -/
  | atQuery {before after : List Event} {query : Query} {failure : Failure}
      (hevents : events = before ++ .asked query :: after) (h : Passes fault room before)
      (hfault : fault query = some failure) :
      Truncates fault room events result (before ++ [.asked query]) (.error failure)
  /-- The run ends in front of the first command for which there is no room. -/
  | atCommand {before after : List Event} {command : Command}
      (hevents : events = before ++ .emitted command :: after) (h : Passes fault room before)
      (hfull : (before.filterMap Event.command?).length = room) :
      Truncates fault room events result before (.error (.emit .sinkFull))

section
variable {α : Type} {fault : Query → Option Failure} {room more : Nat} {event : Event}
  {events left : List Event} {result ending : Except Failure α}

theorem Passes.nil : Passes fault room [] := ⟨fun _ h => absurd h List.not_mem_nil, Nat.zero_le _⟩

theorem length_filterMap_command?_cons :
    ((event :: events).filterMap Event.command?).length =
      event.command?.toList.length + (events.filterMap Event.command?).length := by
  rcases hc : event.command? with _ | command
  · simp [hc]
  · simp [hc, Nat.add_comm]

theorem Passes.cons (hfault : ∀ query, event = .asked query → fault query = none)
    (hroom : event.command?.toList.length + room = more) (h : Passes fault room events) :
    Passes fault more (event :: events) where
  faultless query hmem := by
    rcases List.mem_cons.mp hmem with heq | hmem
    · exact hfault query heq.symm
    · exact h.faultless query hmem
  fits := by
    rw [length_filterMap_command?_cons, ← hroom]
    exact Nat.add_le_add_left h.fits _

/-- An event that passes stays in front of what is left. Its command takes up room. -/
theorem Truncates.cons (hfault : ∀ query, event = .asked query → fault query = none)
    (hroom : event.command?.toList.length + room = more)
    (h : Truncates fault room events result left ending) :
    Truncates fault more (event :: events) result (event :: left) ending := by
  cases h with
  | whole h => exact .whole (h.cons hfault hroom)
  | atQuery hevents h hf =>
      exact .atQuery (congrArg (event :: ·) hevents) (h.cons hfault hroom) hf
  | atCommand hevents h hfull =>
      refine .atCommand (congrArg (event :: ·) hevents) (h.cons hfault hroom) ?_
      rw [length_filterMap_command?_cons, hfull, hroom]

end

/-! ## Any dialogue -/

namespace Dialogue

variable {σ τ α : Type}

/-- Faults, and a limit that leaves room for `room` more commands, leave of a run of `d` what
they leave of its events. The sink has kept the commands among these, and has given none back. -/
def Leaves (fs : FileSystem σ) (fault : Query → Option Failure) (limit room : Nat) (d : Dialogue α)
    (start : Run σ (Array Command)) : Prop :=
  let whole := d.run fs (.collect none) start
  let cut := d.run (fs.withFaults fault) (.collect (some limit)) start
  ∃ events left,
    whole.2.events.toList = start.events.toList ++ events ∧
      cut.2.events.toList = start.events.toList ++ left ∧
      cut.2.sink.toList = start.sink.toList ++ left.filterMap Event.command? ∧
      Truncates fault room events whole.1 left cut.1

section
variable {fs : FileSystem σ} {fault : Query → Option Failure} {limit room more : Nat}
  {start after : Run σ (Array Command)} {r : Request} {next : r.Reply → Dialogue α}

/-- A request that both partners reply to alike, and that is no event. -/
theorem Leaves.call_silent {reply : r.Reply}
    (hwhole : Run.reply fs (.collect none) r start = (.ok reply, after))
    (hcut : Run.reply (fs.withFaults fault) (.collect (some limit)) r start = (.ok reply, after))
    (hevents : after.events = start.events) (hsink : after.sink = start.sink)
    (h : Leaves fs fault limit room (next reply) after) :
    Leaves fs fault limit room (.call r next) start := by
  unfold Leaves at h ⊢
  rw [hevents, hsink] at h
  rwa [run_call, run_call, hwhole, hcut]

/-- A request that both partners reply to alike, and that is an event. -/
theorem Leaves.call_event {reply : r.Reply} {event : Event}
    (hwhole : Run.reply fs (.collect none) r start = (.ok reply, after))
    (hcut : Run.reply (fs.withFaults fault) (.collect (some limit)) r start = (.ok reply, after))
    (hevents : after.events = start.events.push event)
    (hsink : after.sink.toList = start.sink.toList ++ event.command?.toList)
    (hfault : ∀ query, event = .asked query → fault query = none)
    (hroom : event.command?.toList.length + room = more)
    (h : Leaves fs fault limit room (next reply) after) :
    Leaves fs fault limit more (.call r next) start := by
  obtain ⟨events, left, hw, hc, hs, htruncates⟩ := h
  refine ⟨event :: events, event :: left, ?_, ?_, ?_, ?_⟩
  · rw [run_call, hwhole]
    simpa [hevents] using hw
  · rw [run_call, hcut]
    simpa [hevents] using hc
  · rw [run_call, hcut]
    rcases hcommand : event.command? with _ | command
    · simpa [hsink, hcommand] using hs
    · simpa [hsink, hcommand] using hs
  · rw [run_call, run_call, hwhole, hcut]
    exact htruncates.cons hfault hroom

/-- The query that the file system itself refuses is the last one in any case. -/
theorem leaves_of_answer_error {query : Query} {next : query.Answer → Dialogue α} {files : σ}
    {failure : Failure} (hf : fault query = none)
    (ha : fs.answer query start.files = (.error failure, files)) :
    Leaves fs fault limit room (.call (.ask query) next) start := by
  have hpasses : Passes fault room [.asked query] := by
    refine Passes.nil.cons ?_ (Nat.zero_add room)
    rintro _ ⟨⟩
    exact hf
  refine ⟨[.asked query], [.asked query], ?_, ?_, ?_, ?_⟩
  · simp [run_call, Run.reply, ha]
  · simp [run_call, Run.reply, FileSystem.withFaults, hf, ha]
  · simp [run_call, Run.reply, FileSystem.withFaults, hf, ha, Event.command?]
  · simp only [run_call, Run.reply, FileSystem.withFaults, hf, ha]
    exact .whole hpasses

/-- A run only adds to the events that happened before it. -/
theorem exists_events_run (fs : FileSystem σ) (out : Sink τ) (d : Dialogue α) (start : Run σ τ) :
    ∃ events, (d.run fs out start).2.events.toList = start.events.toList ++ events := by
  obtain ⟨events, h⟩ := events_prefix_run fs out d start
  exact ⟨events, h.symm⟩

/-- A query that is made to fail ends the run, whatever was to come after it. -/
theorem leaves_of_fault {query : Query} {next : query.Answer → Dialogue α} {failure : Failure}
    (hf : fault query = some failure) :
    Leaves fs fault limit room (.call (.ask query) next) start := by
  let asked : Run σ (Array Command) := { start with
    files := (fs.answer query start.files).2
    events := start.events.push (.asked query) }
  have hreply : Run.reply fs (.collect none) (.ask query) start =
      ((fs.answer query start.files).1, asked) := rfl
  have hcut : (Dialogue.call (.ask query) next).run (fs.withFaults fault) (.collect (some limit))
      start = (.error failure, { start with events := start.events.push (.asked query) }) := by
    simp [run_call, Run.reply, FileSystem.withFaults, hf]
  obtain ⟨events, hevents⟩ : ∃ events,
      ((Dialogue.call (.ask query) next).run fs (.collect none) start).2.events.toList =
        asked.events.toList ++ events := by
    rw [run_call, hreply]
    rcases (fs.answer query start.files).1 with _ | answer
    · exact ⟨[], (List.append_nil _).symm⟩
    · exact exists_events_run fs (.collect none) (next answer) asked
  -- Whatever the whole run does then, its first event is this query.
  refine ⟨.asked query :: events, [] ++ [.asked query], ?_, ?_, ?_, ?_⟩
  · simpa [asked] using hevents
  · simp [hcut]
  · simp [hcut, Event.command?]
  · rw [hcut]
    exact .atQuery rfl .nil hf

/-- A command for which there is no room ends the run, whatever was to come after it. -/
theorem leaves_of_full {command : Command} {next : Unit → Dialogue α}
    (hfull : start.sink.size = limit) :
    Leaves fs fault limit 0 (.call (.emit command) next) start := by
  obtain ⟨events, hevents⟩ := exists_events_run fs (.collect none) (next ()) { start with
    sink := start.sink.push command
    session := start.session.countEmitted
    events := start.events.push (.emitted command) }
  have hcut : (Dialogue.call (.emit command) next).run (fs.withFaults fault)
      (.collect (some limit)) start = (.error (.emit .sinkFull), start) := by
    simp [run_call, Run.reply, Sink.collect, hfull]
  refine ⟨.emitted command :: events, [], ?_, ?_, ?_, ?_⟩
  · simpa [run_call, Run.reply, Sink.collect] using hevents
  · simp [hcut]
  · simp [hcut]
  · rw [hcut]
    exact .atCommand rfl .nil rfl

end

/-- **A run with faults is a run that is broken off.** It is so for every dialogue, because
the failure of one request is the end of it. -/
theorem leaves (fs : FileSystem σ) (fault : Query → Option Failure) (d : Dialogue α)
    {start : Run σ (Array Command)} {limit room : Nat} (hroom : start.sink.size + room = limit) :
    Leaves fs fault limit room d start := by
  induction d generalizing start room with
  | done _ => exact ⟨[], [], by simp, by simp, by simp, .whole .nil⟩
  | fail _ => exact ⟨[], [], by simp, by simp, by simp, .whole .nil⟩
  | call r next ih =>
      cases r with
      | ask query =>
          rcases hf : fault query with _ | failure
          · -- no fault: it is for the file system to answer
            rcases ha : fs.answer query start.files with ⟨failure | answer, files⟩
            · exact leaves_of_answer_error hf ha
            · have hwhole : Run.reply fs (.collect none) (.ask query) start =
                  (.ok answer, { start with files, events := start.events.push (.asked query) }) := by
                simp [Run.reply, ha]
              have hcut : Run.reply (fs.withFaults fault) (.collect (some limit)) (.ask query) start =
                  (.ok answer, { start with files, events := start.events.push (.asked query) }) := by
                simp [Run.reply, FileSystem.withFaults, hf, ha]
              refine .call_event hwhole hcut rfl (by simp [Event.command?]) ?_ (Nat.zero_add room)
                (ih answer hroom)
              rintro _ ⟨⟩
              exact hf
          · exact leaves_of_fault hf
      | emit command =>
          cases room with
          | zero => exact leaves_of_full hroom  -- the sink is full
          | succ room =>
              have hfits : start.sink.size < limit := by omega
              have hcut : Run.reply (fs.withFaults fault) (.collect (some limit)) (.emit command)
                  start = (.ok (), { start with
                    sink := start.sink.push command
                    session := start.session.countEmitted
                    events := start.events.push (.emitted command) }) := by
                simp [Run.reply, Sink.collect, hfits]
              refine .call_event rfl hcut rfl (by simp [Event.command?]) ?_ (Nat.add_comm 1 room)
                (ih () ?_)
              · rintro _ ⟨⟩
              · rw [Array.size_push]
                omega
      | log record =>
          refine .call_event rfl rfl rfl (by simp [Event.command?, Run.happened]) ?_
            (Nat.zero_add room) (ih () hroom)
          rintro _ ⟨⟩
      | note n => exact .call_silent rfl rfl rfl rfl (ih () hroom)
      | review => exact .call_silent rfl rfl rfl rfl (ih start.session hroom)

end Dialogue

/-! ## Synchronising -/

namespace Sync

variable {σ τ : Type} {rules : Rules} {budget : Nat} {fs : FileSystem σ} {out : Sink τ}

/-- How far synchronising `pairs` got, by how it ended. -/
inductive Progress (rules : Rules) (budget : Nat) (fs : FileSystem σ) (out : Sink τ)
    (pairs : List Pair) (start : Run σ τ) : Except Failure Report → Run σ τ → Prop
  /-- Every pair was walked through to its end before anything else was done. -/
  | throughAll {ending : Except Failure Report} {walked finish : Run σ τ}
      (hwalks : (walkAll rules budget pairs).run fs out start = (.ok (), walked))
      (hevents : walked.events.toList <+: finish.events.toList) :
      Progress rules budget fs out pairs start ending finish
  /-- The walk through one of the pairs failed. That is where the run ended: nothing was done
  for the pairs after it, and nothing was told to the version control. -/
  | into {before later : List Pair} {pair : Pair} {mid finish : Run σ τ} {failure : Failure}
      (hpairs : pairs = before ++ pair :: later)
      (hbefore : (walkAll rules budget before).run fs out start = (.ok (), mid))
      (hwalk : (walk rules budget pair).run fs out (mid.happened (.logged (.reconciling pair))) =
        (.error failure, finish))
      (hcommands : ∀ command ∈ finish.commands, command.isVersionControl = false) :
      Progress rules budget fs out pairs start (.error failure) finish

/-- The walks through several pairs fail with the walk through one of them. -/
theorem exists_walk_error {pairs : List Pair} {start finish : Run σ τ} {failure : Failure}
    (h : (walkAll rules budget pairs).run fs out start = (.error failure, finish)) :
    ∃ before pair later mid, pairs = before ++ pair :: later ∧
      (walkAll rules budget before).run fs out start = (.ok (), mid) ∧
      (walk rules budget pair).run fs out (mid.happened (.logged (.reconciling pair))) =
        (.error failure, finish) := by
  induction pairs generalizing start with
  | nil => cases h
  | cons pair rest ih =>
      rw [walkAll, Dialogue.run_bind, Dialogue.run_log] at h
      simp only [Dialogue.run_bind] at h
      rcases hwalk : (walk rules budget pair).run fs out
          (start.happened (.logged (.reconciling pair))) with ⟨failed | ⟨⟩, mid⟩
      · -- the walk of this pair fails
        rw [hwalk] at h
        cases h
        exact ⟨[], pair, rest, start, rfl, rfl, hwalk⟩
      · -- a walk behind it fails
        rw [hwalk] at h
        obtain ⟨before, other, later, last, hpairs, hbefore, hother⟩ := ih h
        refine ⟨pair :: before, other, later, last, congrArg (pair :: ·) hpairs, ?_, hother⟩
        refine Dialogue.run_bind_ok.mpr ⟨(), _, Dialogue.run_log .., ?_⟩
        exact Dialogue.run_bind_ok.mpr ⟨(), mid, hwalk, hbefore⟩

theorem progress (pairs : List Pair) {start : Run σ τ} (hstart : start.commands = []) :
    Progress rules budget fs out pairs start ((sync rules budget pairs).run fs out start).1
      ((sync rules budget pairs).run fs out start).2 := by
  rcases hwalks : (walkAll rules budget pairs).run fs out start with ⟨failure | ⟨⟩, walked⟩
  · -- a walk fails
    rw [run_sync_of_error hwalks]
    obtain ⟨before, pair, later, mid, hpairs, hbefore, hwalk⟩ := exists_walk_error hwalks
    refine .into hpairs hbefore hwalk fun command hcommand => ?_
    have honly : Dialogue.Only Request.OfWalk (walkAll rules budget pairs) := only_walkAll pairs
    have hof := honly.commands fs out start command
    rw [hwalks, hstart] at hof
    exact (hof hcommand).resolve_left List.not_mem_nil
  · -- all walks get through
    rw [run_sync_of_ok hwalks]
    exact .throughAll hwalks (Dialogue.events_prefix_run fs out _ walked)

end Sync

/-- **Breaking off is cutting short.** Take any file system and any list of pairs, and look at
the run that keeps every command. Now let any queries fail and let the sink take only `room`
commands. What happens then is what happened before, up to the first query that fails or in
front of the first command for which there is no room, whichever comes first; the run ends
with the failure of just that query or command, and is the same as before if there is none.
The sink keeps the commands that were emitted. If the walk through a pair fails, nothing is
done for the pairs after it, and the version control is told of anything only after all pairs
were walked through to their ends. -/
theorem sync_truncates {σ : Type} (fs : FileSystem σ) (rules : Rules) (budget : Nat)
    (pairs : List Pair) (files : σ) (fault : Query → Option Failure) (room : Nat) :
    let start : Run σ (Array Command) := ⟨files, #[], {}, #[]⟩
    let whole := (sync rules budget pairs).run fs (.collect none) start
    let cut := (sync rules budget pairs).run (fs.withFaults fault) (.collect (some room)) start
    Truncates fault room whole.2.events.toList whole.1 cut.2.events.toList cut.1 ∧
      cut.2.sink.toList = cut.2.commands ∧
      Sync.Progress rules budget (fs.withFaults fault) (.collect (some room)) pairs start cut.1
        cut.2 := by
  intro start whole cut
  have hroom : start.sink.size + room = room := Nat.zero_add room
  obtain ⟨events, left, hwhole, hcut, hsink, htruncates⟩ :=
    Dialogue.leaves fs fault (sync rules budget pairs) hroom
  have hevents : whole.2.events.toList = events := hwhole
  have hleft : cut.2.events.toList = left := hcut
  refine ⟨?_, ?_, Sync.progress pairs rfl⟩
  · rw [hevents, hleft]
    exact htruncates
  · calc cut.2.sink.toList = left.filterMap Event.command? := hsink
      _ = cut.2.commands := by rw [← hleft]; rfl

end TreePlan

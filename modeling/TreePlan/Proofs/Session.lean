import TreePlan.Proofs.Batches
import TreePlan.Proofs.Parallel
import TreePlan.Status

/-!
# What a walk makes of a session

A walk adds to the session it is given and never looks at it. So a run that starts with some notes
and some history is the run that starts with none, behind those notes and that history
(`Dialogue.run_after`): the replies are the same, and so are the result, the file system and the
sink. It holds of failed runs as of others, since no step depends on what came before.
-/

namespace TreePlan

variable {σ τ α : Type} {fs : FileSystem σ} {out : Sink τ} {rules : Rules} {budget : Nat}

/-! ## One session after another -/

namespace Session

def followedBy (earlier later : Session) : Session where
  conflict := earlier.conflict || later.conflict
  adds := earlier.adds ++ later.adds
  deletes := earlier.deletes ++ later.deletes
  emitted := earlier.emitted + later.emitted

variable (earlier later : Session)

theorem followedBy_empty : earlier.followedBy {} = earlier := by
  simp [followedBy]

theorem followedBy_note (n : Note) :
    (earlier.followedBy later).note n = earlier.followedBy (later.note n) := by
  cases n with
  | add path | delete path => simp [note, followedBy]
  | conflict => simp [note, followedBy]

theorem followedBy_countEmitted :
    (earlier.followedBy later).countEmitted = earlier.followedBy later.countEmitted := by
  simp [countEmitted, followedBy, Nat.add_assoc]

end Session

def Run.after (session : Session) (events : Array Event) (run : Run σ τ) : Run σ τ :=
  { run with session := session.followedBy run.session, events := events ++ run.events }

section
variable (session : Session) (events : Array Event)

theorem Run.after_fresh (files : σ) (sink : τ) :
    Run.after session events ⟨files, sink, {}, #[]⟩ = ⟨files, sink, session, events⟩ := by
  simp [Run.after, Session.followedBy_empty]

theorem Run.happened_after (run : Run σ τ) (event : Event) :
    (run.after session events).happened event = (run.happened event).after session events := by
  simp [Run.after, Run.happened]

theorem Run.reply_after {r : Request} (hwalk : r.OfWalk) (run : Run σ τ) :
    Run.reply fs out r (run.after session events) =
      ((Run.reply fs out r run).1, (Run.reply fs out r run).2.after session events) := by
  cases r with
  | ask query => simp [Run.reply, Run.after]
  | emit command =>
      simp only [Run.reply, Run.after]
      rcases out.accept command run.sink with ⟨cause | ⟨⟩, sink⟩
      · rfl  -- refused
      · simp [Session.followedBy_countEmitted]
  | log record => simp [Run.reply, Run.happened_after]
  | note n => simp [Run.reply, Run.after, Session.followedBy_note]
  | review => exact absurd hwalk not_false

/-- **What came before a walk makes no difference to it.** -/
theorem Dialogue.run_after {d : Dialogue α} (hd : Only Request.OfWalk d) (start : Run σ τ) :
    d.run fs out (start.after session events) =
      ((d.run fs out start).1, (d.run fs out start).2.after session events) :=
  (hd.run_view (Run.after session events) (fun _ hwalk => Run.reply_after session events hwalk)
    start).1

end

/-- A walk in the middle of other runs is the walk by itself, behind what was there. -/
theorem walk_run_after (pair : Pair) (start : Run σ τ) :
    let own := (walk rules budget pair).run fs out ⟨start.files, start.sink, {}, #[]⟩
    (walk rules budget pair).run fs out start =
      (own.1, own.2.after start.session start.events) := by
  intro own
  rw [← Dialogue.run_after start.session start.events (only_walk budget pair), Run.after_fresh]

/-! ## Gathering -/

/-- Gathering what a dialogue emits and notes comes to handing it to a sink that takes it. -/
theorem Dialogue.run_gather {τ' : Type} (other : Sink τ') (hout : out.AcceptsAll) {d : Dialogue α}
    {start finish : Run σ τ} {result : Except Failure α}
    (hrun : d.run fs out start = (result, finish)) (listener : Run σ τ')
    (hfiles : listener.files = start.files) :
    ∃ heard, heard.files = finish.files ∧
      (d.gather start.session start.commands.toArray).run fs other listener =
        (result.map fun value => ⟨value, finish.session, finish.commands.toArray⟩, heard) := by
  -- Session and commands are carried along by `gather`; the listener keeps the file system.
  induction d generalizing start listener with
  | done | fail =>
      cases hrun
      exact ⟨listener, hfiles, rfl⟩
  | call r next ih =>
      rw [run_call] at hrun
      cases r with
      | ask query =>
          rw [gather, run_call]
          rcases hanswer : fs.answer query start.files with ⟨failure | answer, files⟩
          · -- the query fails, and the run with it
            simp only [Run.reply, hfiles, hanswer] at hrun ⊢
            cases hrun
            exact ⟨_, rfl, rfl⟩
          · simp only [Run.reply, hfiles, hanswer] at hrun ⊢
            have hcommands : start.commands =
                { start with files, events := start.events.push (.asked query) }.commands := by
              simp [Run.commands]
            rw [hcommands]
            exact ih answer hrun _ rfl
      | log record =>
          rw [gather, run_call, ← Run.commands_happened_logged start record]
          exact ih () hrun _ hfiles
      | emit command =>
          obtain ⟨sink, haccept⟩ := hout command start.sink
          simp only [Run.reply, haccept] at hrun
          have hcommands : start.commands.toArray.push command =
              (Run.commands { start with
                sink
                session := start.session.countEmitted
                events := start.events.push (.emitted command) }).toArray := by
            simp [Run.commands]
          rw [gather, hcommands]
          exact ih () hrun _ hfiles
      | note n => exact ih () hrun _ hfiles
      | review => exact ih start.session hrun _ hfiles

/-- What is gathered of a dialogue by itself. -/
theorem Dialogue.exists_gather {τ' : Type} (fs : FileSystem σ) (other : Sink τ')
    (hout : out.AcceptsAll) (d : Dialogue α) (sink : τ) (listener : Run σ τ') :
    let own := d.run fs out ⟨listener.files, sink, {}, #[]⟩
    ∃ heard, (d.gather {} #[]).run fs other listener =
      (own.1.map fun value => ⟨value, own.2.session, own.2.commands.toArray⟩, heard) := by
  intro own
  have hrun : d.run fs out ⟨listener.files, sink, {}, #[]⟩ = (own.1, own.2) := rfl
  obtain ⟨heard, -, hgather⟩ := Dialogue.run_gather other hout hrun listener rfl
  exact ⟨heard, hgather⟩

end TreePlan

import TreePlan.Proofs.Requests
import TreePlan.Sync

/-!
# The end of a synchronisation

After the walks, a synchronisation hands over the batches for the version control and reports.
Here is what that end comes to, whatever the walks were.

* `Sync.conclude` is all that is left to do when the walks are done (`Sync.run_sync_of_ok`), and only
  the sink can stop it (`Sync.exists_conclude_ok`).
* `Sync.exists_of_sync_ok` takes a run that succeeds apart, at the point where all walks are done.
* `Report.closing` spells the batches out; `Sync.batches_eq_closing` says that they are the ones
  that are handed over, where a conflict never comes without something to delete.
-/

namespace TreePlan

/-- The commands that close a synchronisation with the given report: all deletions at once, a
commit of just these if there was a conflict, and all additions at once. -/
def Report.closing (rules : Rules) (report : Report) : List Command :=
  let deletes := report.deletes.toList
  let adds := report.adds.toList
  (if deletes = [] then [] else [.delete deletes]) ++
    (if report.conflict then [.commit rules.commitMessage deletes] else []) ++
      (if adds = [] then [] else [.add adds])

/-- With paths on both lists, a conflict has all three batches. -/
theorem Report.closing_of_conflict (rules : Rules) {report : Report} (h : report.conflict = true)
    (hadds : report.adds.toList ≠ []) (hdeletes : report.deletes.toList ≠ []) :
    report.closing rules = [.delete report.deletes.toList,
      .commit rules.commitMessage report.deletes.toList, .add report.adds.toList] := by
  simp only [closing, if_neg hadds, if_neg hdeletes, if_pos h]
  rfl

namespace Sync

variable {σ τ : Type} {fs : FileSystem σ} {out : Sink τ} {rules : Rules}

/-! ## Handing over commands -/

theorem emit_ok {command : Command} {start finish : Run σ τ}
    (h : (Dialogue.emit command).run fs out start = (.ok (), finish)) :
    finish.commands = start.commands ++ [command] ∧
      finish.session = start.session.countEmitted ∧ finish.records = start.records := by
  rw [Dialogue.emit, Dialogue.run_request] at h
  simp only [Run.reply] at h
  rcases haccept : out.accept command start.sink with ⟨cause | ⟨⟩, sink⟩
  · rw [haccept] at h
    cases h
  · rw [haccept] at h
    cases h
    exact ⟨by simp [Run.commands], rfl, by simp [Run.records]⟩

theorem emitAll_ok {commands : List Command} {start finish : Run σ τ}
    (h : (emitAll commands).run fs out start = (.ok (), finish)) :
    finish.commands = start.commands ++ commands ∧
      finish.session = { start.session with emitted := start.session.emitted + commands.length } ∧
        finish.records = start.records := by
  induction commands generalizing start with
  | nil =>
      cases h
      simp
  | cons command commands ih =>
      obtain ⟨_, mid, hemit, hrest⟩ := Dialogue.run_bind_ok.mp h
      obtain ⟨hcommands, hsession, hrecords⟩ := emit_ok hemit
      obtain ⟨hmore, hlast, hkept⟩ := ih hrest
      refine ⟨?_, ?_, hkept.trans hrecords⟩
      · rw [hmore, hcommands, List.append_assoc]
        rfl
      · have hcount : start.session.emitted + 1 + commands.length =
            start.session.emitted + (command :: commands).length := by
          rw [List.length_cons]
          omega
        rw [hlast, hsession, ← hcount]
        rfl

/-- What closes a session is for the version control. -/
theorem isVersionControl_of_mem_batches {session : Session} {command : Command}
    (h : command ∈ batches rules session) : command.isVersionControl = true := by
  simp only [batches] at h
  grind [Command.isVersionControl]

/-- The commit needs no deletions to be mentioned, because there is no conflict without any. -/
theorem batches_eq_closing {session : Session}
    (h : session.conflict = true → session.deletes.toList ≠ []) :
    batches rules session = session.report.closing rules := by
  by_cases hnil : session.deletes.toList = []
  · have hnone : session.conflict = false := by
      rw [Bool.eq_false_iff]
      exact fun hflag => h hflag hnil
    simp [batches, Report.closing, Session.report, hnil, hnone]
  · cases hflag : session.conflict <;>
      simp [batches, Report.closing, Session.report, hnil, hflag]

/-- The batches are about what was queued. -/
theorem forall_paths_of_mem_batches {P : Path → Prop} {session : Session}
    (hadds : ∀ path ∈ session.adds.toList, P path)
    (hdeletes : ∀ path ∈ session.deletes.toList, P path) :
    ∀ command ∈ batches rules session, ∀ path ∈ command.paths, P path := by
  intro command hcommand path hpath
  simp only [batches] at hcommand
  grind [Command.paths]

theorem only_emitAll {P : Request → Prop} {commands : List Command}
    (h : ∀ command ∈ commands, P (.emit command)) : Dialogue.Only P (emitAll commands) := by
  induction commands with
  | nil => exact .done trivial
  | cons command commands ih =>
      obtain ⟨hfirst, hrest⟩ := List.forall_mem_cons.mp h
      exact Dialogue.Only.bind (.request hfirst) fun _ => ih hrest

/-- What a synchronisation does once it knows what is to be handed over. -/
def conclude (commands : List Command) : Dialogue Report := do
  emitAll commands
  let last ← Dialogue.review
  Dialogue.log (.finished last.report)
  return last.report

theorem only_conclude {P : Request → Prop} {commands : List Command}
    (hemit : ∀ command ∈ commands, P (.emit command)) (hreview : P .review)
    (hlog : ∀ report, P (.log (.finished report))) : Dialogue.Only P (conclude commands) := by
  refine (only_emitAll hemit).bind fun _ => ?_
  refine Dialogue.Only.bind (.request hreview) fun last => ?_
  exact Dialogue.Only.bind (.request (hlog last.report)) fun _ => .done trivial

theorem exists_emitAll_ok (fs : FileSystem σ) (hout : out.AcceptsAll) (commands : List Command)
    (start : Run σ τ) : ∃ finish, (emitAll commands).run fs out start = (.ok (), finish) := by
  induction commands generalizing start with
  | nil => exact ⟨start, rfl⟩
  | cons command commands ih =>
      obtain ⟨mid, hmid⟩ : ∃ mid, (Dialogue.emit command).run fs out start = (.ok (), mid) := by
        obtain ⟨sink, haccept⟩ := hout command start.sink
        rw [Dialogue.emit, Dialogue.run_request, Run.reply, haccept]
        exact ⟨_, rfl⟩
      obtain ⟨finish, hfinish⟩ := ih mid
      exact ⟨finish, Dialogue.run_bind_ok.mpr ⟨(), mid, hmid, hfinish⟩⟩

/-- There is nothing to fail at the end if every command is taken. -/
theorem exists_conclude_ok (fs : FileSystem σ) (hout : out.AcceptsAll) (commands : List Command)
    (start : Run σ τ) :
    ∃ report finish, (conclude commands).run fs out start = (.ok report, finish) := by
  obtain ⟨emitted, hemitted⟩ := exists_emitAll_ok fs hout commands start
  refine ⟨emitted.session.report,
    emitted.happened (.logged (.finished emitted.session.report)), ?_⟩
  refine Dialogue.run_bind_ok.mpr ⟨(), emitted, hemitted, ?_⟩
  refine Dialogue.run_bind_ok.mpr ⟨_, _, Dialogue.run_review .., ?_⟩
  exact Dialogue.run_bind_ok.mpr ⟨(), _, Dialogue.run_log .., rfl⟩

/-- A synchronisation whose walks are done concludes with the batches of what was gathered. -/
theorem run_sync_of_ok {pairs : List Pair} {budget : Nat} {start walked : Run σ τ}
    (h : (walkAll rules budget pairs).run fs out start = (.ok (), walked)) :
    (sync rules budget pairs).run fs out start =
      (conclude (batches rules walked.session)).run fs out walked := by
  rw [sync, Dialogue.run_bind, h]
  dsimp only
  rw [Dialogue.run_bind, Dialogue.run_review]
  rfl

theorem run_sync_of_error {pairs : List Pair} {budget : Nat} {start walked : Run σ τ}
    {failure : Failure}
    (h : (walkAll rules budget pairs).run fs out start = (.error failure, walked)) :
    (sync rules budget pairs).run fs out start = (.error failure, walked) := by
  rw [sync, Dialogue.run_bind, h]

/-! ## Taking a synchronisation apart -/

/-- All walks keep to what each of them keeps to. -/
theorem stays_walkAll {may : (q : Query) → q.Answer → Prop} {P : Request → Prop} {budget : Nat}
    (hlog : ∀ pair, P (.log (.reconciling pair)))
    {pairs : List Pair}
    (hwalks : ∀ pair ∈ pairs, Dialogue.Stays may P (fun _ => True) (walk rules budget pair)) :
    Dialogue.Stays may P (fun _ => True) (walkAll rules budget pairs) := by
  induction pairs with
  | nil => exact .done trivial
  | cons pair pairs ih =>
      obtain ⟨hwalk, hrest⟩ := List.forall_mem_cons.mp hwalks
      refine (Dialogue.Stays.request (hlog pair)).bind fun _ _ => ?_
      exact hwalk.bind fun _ _ => ih hrest

theorem only_walkAll {budget : Nat} (pairs : List Pair) :
    Dialogue.Only Request.OfWalk (walkAll rules budget pairs) :=
  stays_walkAll (fun _ => trivial) fun pair _ => only_walk budget pair

/-- A synchronisation that succeeds has walked through all pairs, handed over the batches of what
was gathered by then, and reports on what it has gathered in the end. -/
theorem exists_of_sync_ok {pairs : List Pair} {budget : Nat} {start finish : Run σ τ}
    {report : Report} (h : (sync rules budget pairs).run fs out start = (.ok report, finish)) :
    ∃ walked, (walkAll rules budget pairs).run fs out start = (.ok (), walked) ∧
      finish.commands = walked.commands ++ batches rules walked.session ∧
      finish.records = walked.records ++ [.finished report] ∧
      report = { walked.session.report with
        commands := walked.session.emitted + (batches rules walked.session).length } := by
  unfold sync at h
  obtain ⟨_, walked, hwalks, h⟩ := Dialogue.run_bind_ok.mp h
  obtain ⟨gathered, _, hreview, h⟩ := Dialogue.run_bind_ok.mp h
  obtain ⟨_, closed, hemit, h⟩ := Dialogue.run_bind_ok.mp h
  obtain ⟨last, _, hlast, h⟩ := Dialogue.run_bind_ok.mp h
  obtain ⟨_, _, hlog, h⟩ := Dialogue.run_bind_ok.mp h
  -- The review and the record cannot fail, so they only move the run on.
  rw [Dialogue.run_review] at hreview hlast
  rw [Dialogue.run_log] at hlog
  cases hreview
  cases hlast
  cases hlog
  cases h
  obtain ⟨hcommands, hsession, hrecords⟩ := emitAll_ok hemit
  refine ⟨walked, hwalks, ?_, ?_, ?_⟩
  · rw [Run.commands_happened_logged, hcommands]
  · rw [Run.records_happened_logged, hrecords]
  · rw [hsession]
    rfl

end Sync

end TreePlan

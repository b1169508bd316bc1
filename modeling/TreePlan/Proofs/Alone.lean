import TreePlan.Proofs.Batches
import TreePlan.Proofs.Course.Place

/-!
# Walks by themselves

A synchronisation walks through its pairs one after another, over one session and one sink. None
of this shows in what a walk does: it never looks at its notes, and a command that is accepted
tells it nothing. So a successful synchronisation comes to the walks through the single pairs,
each with a session of its own and a sink that keeps everything, put one after another.

* `Includes` compares a run in the middle of others with one by itself: one lemma for a request,
  and by induction one for every dialogue of a walk (`Dialogue.exists_alone`).
* `Alone` are the walks through the pairs by themselves.
* `exists_path_of_conflict`: a walk through to the end that flags a conflict has queued one path
  both to be added and to be deleted.

`sync_concatenates` puts all of it together.
-/

namespace TreePlan

variable {σ τ : Type} {fs : FileSystem σ} {out : Sink τ} {rules : Rules} {budget : Nat}

/-! ## One walk in the middle of others -/

/-- From `start` to `finish`, a run did just what the run `own` did from its beginning. -/
structure Includes (start : Run σ τ) (own : Run σ (Array Command)) (finish : Run σ τ) : Prop where
  files : own.files = finish.files
  events : finish.events.toList = start.events.toList ++ own.events.toList
  adds : finish.session.adds.toList = start.session.adds.toList ++ own.session.adds.toList
  deletes :
    finish.session.deletes.toList = start.session.deletes.toList ++ own.session.deletes.toList
  conflict : finish.session.conflict = (start.session.conflict || own.session.conflict)

theorem Includes.refl (start : Run σ τ) : Includes start ⟨start.files, #[], {}, #[]⟩ start where
  files := rfl
  events := by simp
  adds := by simp
  deletes := by simp
  conflict := by simp

theorem Includes.commands {start finish : Run σ τ} {own : Run σ (Array Command)}
    (h : Includes start own finish) : finish.commands = start.commands ++ own.commands := by
  simp only [Run.commands, h.events, List.filterMap_append]

theorem Includes.records {start finish : Run σ τ} {own : Run σ (Array Command)}
    (h : Includes start own finish) : finish.records = start.records ++ own.records := by
  simp only [Run.records, h.events, List.filterMap_append]

/-- A request that is granted is granted to a run by itself as well, with the same reply. -/
theorem Includes.exists_reply {r : Request} (hwalk : r.OfWalk) {start mid after : Run σ τ}
    {own : Run σ (Array Command)} (h : Includes start own mid) {answer : r.Reply}
    (hreply : Run.reply fs out r mid = (.ok answer, after)) :
    ∃ next, Run.reply fs (.collect none) r own = (.ok answer, next) ∧
      Includes start next after := by
  cases r with
  | ask query =>
      rcases hanswer : fs.answer query mid.files with ⟨result, files⟩
      rw [Run.reply, hanswer] at hreply
      cases hreply
      refine ⟨{ own with files, events := own.events.push (.asked query) }, ?_, ?_⟩
      · rw [Run.reply, h.files, hanswer]
      · exact ⟨rfl, by simp [h.events], h.adds, h.deletes, h.conflict⟩
  | emit command =>
      rw [Run.reply] at hreply
      rcases haccept : out.accept command mid.sink with ⟨_ | ⟨⟩, sink⟩
      · -- a refusal is no answer
        rw [haccept] at hreply
        cases hreply
      · rw [haccept] at hreply
        cases hreply
        exact ⟨_, rfl, ⟨h.files, by simp [h.events], h.adds, h.deletes, h.conflict⟩⟩
  | log record =>
      cases hreply
      refine ⟨_, rfl, ⟨h.files, ?_, h.adds, h.deletes, h.conflict⟩⟩
      simp [Run.happened, h.events]
  | note n =>
      cases hreply
      refine ⟨_, rfl, ⟨h.files, h.events, ?_, ?_, ?_⟩⟩
      · cases n <;> simp [Session.note, h.adds]
      · cases n <;> simp [Session.note, h.deletes]
      · cases n <;> simp [Session.note, h.conflict]
  | review => exact absurd hwalk id

/-- What succeeds in the middle of other runs succeeds by itself, and does the same there. -/
theorem Dialogue.exists_alone {α : Type} {d : Dialogue α} (hd : Only Request.OfWalk d)
    {start mid finish : Run σ τ} {own : Run σ (Array Command)} {value : α}
    (h : Includes start own mid) (hrun : d.run fs out mid = (.ok value, finish)) :
    ∃ last, d.run fs (.collect none) own = (.ok value, last) ∧ Includes start last finish := by
  -- Both runs move on: `mid` and `own` are where they have got to, `start` stays behind.
  induction hd generalizing mid own with
  | done =>
      cases hrun
      exact ⟨own, rfl, h⟩
  | fail failure => cases hrun
  | @call r next hwalk _ ih =>
      rw [run_call] at hrun
      rcases hreply : Run.reply fs out r mid with ⟨failure | answer, after⟩
      · -- a failed reply gives no result
        rw [hreply] at hrun
        cases hrun
      · rw [hreply] at hrun
        obtain ⟨next, hnext, hincludes⟩ := h.exists_reply hwalk hreply
        obtain ⟨last, hlast, hfinish⟩ := ih answer (Request.may_true answer) hincludes hrun
        refine ⟨last, ?_, hfinish⟩
        rw [run_call, hnext]
        exact hlast

/-! ## All walks by themselves -/

/-- `Alone rules budget fs pairs files runs`: the walks through the pairs, each by itself and with
a sink that keeps everything, all succeed with these runs. Each one starts with the files as the
one before has left them. -/
inductive Alone (rules : Rules) (budget : Nat) (fs : FileSystem σ) :
    List Pair → σ → List (Run σ (Array Command)) → Prop
  | nil (files : σ) : Alone rules budget fs [] files []
  | cons {pair : Pair} {pairs : List Pair} {files : σ} {own : Run σ (Array Command)}
      {others : List (Run σ (Array Command))}
      (hrun : (walk rules budget pair).run fs (.collect none) ⟨files, #[], {}, #[]⟩ = (.ok (), own))
      (hothers : Alone rules budget fs pairs own.files others) :
      Alone rules budget fs (pair :: pairs) files (own :: others)

/-- From `start` to `finish`, a run did for the session and the sink what `runs` did together, and
saw what they saw. -/
structure Concatenates (start : Run σ τ) (runs : List (Run σ (Array Command)))
    (finish : Run σ τ) : Prop where
  commands : finish.commands = start.commands ++ runs.flatMap Run.commands
  adds : finish.session.adds.toList =
    start.session.adds.toList ++ runs.flatMap fun own => own.session.adds.toList
  deletes : finish.session.deletes.toList =
    start.session.deletes.toList ++ runs.flatMap fun own => own.session.deletes.toList
  conflict : finish.session.conflict =
    (start.session.conflict || runs.any fun own => own.session.conflict)
  visits : ∀ source destination place, .visiting source destination place ∈ finish.records ↔
    .visiting source destination place ∈ start.records ∨
      ∃ own ∈ runs, .visiting source destination place ∈ own.records

/-- The walks of a successful synchronisation are those by themselves. -/
theorem exists_alone_of_walkAll {pairs : List Pair} {start finish : Run σ τ}
    (h : (Sync.walkAll rules budget pairs).run fs out start = (.ok (), finish)) :
    ∃ runs, Alone rules budget fs pairs start.files runs ∧ Concatenates start runs finish := by
  -- One pair after the other: the others begin where the first walk ends.
  induction pairs generalizing start with
  | nil =>
      cases h
      exact ⟨[], .nil _, by simp, by simp, by simp, by simp, by simp⟩
  | cons pair pairs ih =>
      obtain ⟨_, logged, hlog, h⟩ := Dialogue.run_bind_ok.mp h
      obtain ⟨_, mid, hwalk, hrest⟩ := Dialogue.run_bind_ok.mp h
      rw [Dialogue.run_log] at hlog
      cases hlog
      obtain ⟨own, hown, hincludes⟩ :=
        Dialogue.exists_alone (only_walk budget pair) (.refl _) hwalk
      obtain ⟨others, hothers, hconcatenates⟩ := ih hrest
      -- The others find the files as this walk has left them.
      rw [← hincludes.files] at hothers
      refine ⟨own :: others, .cons hown hothers, ?_, ?_, ?_, ?_, fun source destination place => ?_⟩
      · rw [hconcatenates.commands, hincludes.commands, Run.commands_happened_logged,
          List.flatMap_cons, List.append_assoc]
      · rw [hconcatenates.adds, hincludes.adds, List.flatMap_cons, List.append_assoc]
        rfl
      · rw [hconcatenates.deletes, hincludes.deletes, List.flatMap_cons, List.append_assoc]
        rfl
      · rw [hconcatenates.conflict, hincludes.conflict, List.any_cons, Bool.or_assoc]
        rfl
      · rw [hconcatenates.visits, hincludes.records, Run.records_happened_logged, List.mem_append,
          List.mem_append, List.mem_singleton, List.exists_mem_cons_iff, or_assoc]
        simp

/-- Each run is that of one of the pairs, and each pair has a run. -/
theorem Alone.walks {pairs : List Pair} {files : σ} {runs : List (Run σ (Array Command))}
    (h : Alone rules budget fs pairs files runs) :
    (∀ own ∈ runs, ∃ pair ∈ pairs, ∃ before,
      (walk rules budget pair).run fs (.collect none) ⟨before, #[], {}, #[]⟩ = (.ok (), own)) ∧
    ∀ pair ∈ pairs, ∃ own ∈ runs, ∃ before,
      (walk rules budget pair).run fs (.collect none) ⟨before, #[], {}, #[]⟩ = (.ok (), own) := by
  induction h with
  | nil => exact ⟨List.forall_mem_nil _, List.forall_mem_nil _⟩
  | cons hrun _ ih =>
      constructor
      · refine List.forall_mem_cons.mpr ⟨⟨_, List.mem_cons_self, _, hrun⟩, fun own hown => ?_⟩
        exact (ih.1 own hown).imp fun _ => And.imp_left (List.mem_cons_of_mem _)
      · refine List.forall_mem_cons.mpr ⟨⟨_, List.mem_cons_self, _, hrun⟩, fun pair hpair => ?_⟩
        exact (ih.2 pair hpair).imp fun _ => And.imp_left (List.mem_cons_of_mem _)

/-! ## Counting -/

/-- The session counts the commands. -/
theorem Dialogue.emitted_eq_length {α : Type} (fs : FileSystem σ) (out : Sink τ) (d : Dialogue α)
    {start : Run σ τ} (h : start.session.emitted = start.commands.length) :
    (d.run fs out start).2.session.emitted = (d.run fs out start).2.commands.length := by
  refine d.only_true.keeps (fun run => run.session.emitted = run.commands.length)
    (fun r _ run h => ?_) h
  cases r with
  | ask query => simpa [Run.reply, Run.commands] using h
  | emit command =>
      rw [Run.reply]
      rcases out.accept command run.sink with ⟨_ | ⟨⟩, sink⟩
      · -- a refused command is counted nowhere
        simpa [Run.commands] using h
      · simpa [Run.commands, Session.countEmitted] using h
  | log record => simpa [Run.reply, Run.happened, Run.commands] using h
  | note n => cases n <;> simpa [Run.reply, Session.note, Run.commands] using h
  | review => exact h

/-! ## Conflicts -/

/-- A visit that has come to its end has not only flagged a conflict. -/
theorem Course.took_of_flagConflict {may : (q : Query) → q.Answer → Prop} {pair : Pair}
    {steps : List (List Name × Step)} {sourceGone destinationGone : Bool} {rel : List Name}
    (h : Course may rules pair sourceGone destinationGone steps true)
    (hflag : (rel, .took .flagConflict) ∈ steps) :
    (rel, .took .queueAdd) ∈ steps ∧ (rel, .took .queueDelete) ∈ steps := by
  obtain ⟨source, destination, hvisited, hmem, -⟩ := h.exists_visited_of_took hflag
  have hboth : .queueAdd ∈ policy source destination ∧ .queueDelete ∈ policy source destination := by
    rcases (flagConflict_mem_policy_iff source destination).mp hmem with ⟨rfl, rfl⟩ | ⟨rfl, rfl⟩ <;>
      decide
  exact ⟨h.took_of_ended rfl hvisited hboth.1 nofun, h.took_of_ended rfl hvisited hboth.2 nofun⟩

/-- Where a conflict was flagged, one path is on both lists. -/
theorem exists_path_of_conflict {pair : Pair} {files : σ} {sink : τ} {own : Run σ τ}
    (hrun : (walk rules budget pair).run fs out ⟨files, sink, {}, #[]⟩ = (.ok (), own))
    (hconflict : own.session.conflict = true) :
    ∃ path, path ∈ own.session.adds.toList ∧ path ∈ own.session.deletes.toList := by
  obtain ⟨steps, h, hfollows⟩ := exists_course_walk_ok hrun
  obtain ⟨rel, hflag⟩ := hfollows.conflict.mp hconflict
  obtain ⟨hadd, hdelete⟩ := h.took_of_flagConflict hflag
  rw [hfollows.adds, hfollows.deletes]
  exact ⟨pair.destination.below rel, List.mem_map_of_mem (mem_takenAt.mpr hadd),
    List.mem_map_of_mem (mem_takenAt.mpr hdelete)⟩

/-- There is no conflict without paths on both lists. -/
theorem Alone.queues_of_conflict {pairs : List Pair} {files : σ}
    {runs : List (Run σ (Array Command))} (h : Alone rules budget fs pairs files runs)
    (hconflict : (runs.any fun own => own.session.conflict) = true) :
    (runs.flatMap fun own => own.session.adds.toList) ≠ [] ∧
      (runs.flatMap fun own => own.session.deletes.toList) ≠ [] := by
  obtain ⟨own, hown, hflag⟩ := List.any_eq_true.mp hconflict
  obtain ⟨_, _, _, hrun⟩ := h.walks.1 _ hown
  obtain ⟨path, hadd, hdelete⟩ := exists_path_of_conflict hrun hflag
  constructor
  · exact List.ne_nil_of_mem (List.mem_flatMap.mpr ⟨own, hown, hadd⟩)
  · exact List.ne_nil_of_mem (List.mem_flatMap.mpr ⟨own, hown, hdelete⟩)

/-! ## The whole synchronisation -/

/-- A synchronisation that succeeds comes to the walks by themselves and the closing batches. -/
theorem exists_alone_of_sync_ok {pairs : List Pair} {files : σ} {sink : τ} {report : Report}
    {finish : Run σ τ}
    (h : (sync rules budget pairs).run fs out ⟨files, sink, {}, #[]⟩ = (.ok report, finish)) :
    ∃ runs walked, Alone rules budget fs pairs files runs ∧
      Concatenates ⟨files, sink, {}, #[]⟩ runs walked ∧
      finish.commands = walked.commands ++ report.closing rules ∧
      (∀ command ∈ walked.commands, command.isVersionControl = false) ∧
      finish.records = walked.records ++ [.finished report] ∧
      report = { walked.session.report with commands := finish.commands.length } := by
  obtain ⟨walked, hwalks, hcommands, hrecords, hreport⟩ := Sync.exists_of_sync_ok h
  obtain ⟨runs, halone, hruns⟩ := exists_alone_of_walkAll hwalks
  have hclosing : Sync.batches rules walked.session = report.closing rules := by
    rw [hreport]
    refine Sync.batches_eq_closing fun hflag => ?_
    have hany : (runs.any fun own => own.session.conflict) = true := hruns.conflict.symm.trans hflag
    have hdeletes := (halone.queues_of_conflict hany).2
    exact fun hnil => hdeletes (hruns.deletes.symm.trans hnil)
  have hcount : walked.session.emitted = walked.commands.length := by
    have hemitted := Dialogue.emitted_eq_length fs out (Sync.walkAll rules budget pairs)
      (show (⟨files, sink, {}, #[]⟩ : Run σ τ).session.emitted = 0 from rfl)
    rwa [hwalks] at hemitted
  refine ⟨runs, walked, halone, hruns, ?_, ?_, hrecords, ?_⟩
  · rw [hcommands, hclosing]
  · intro command hcommand
    have honly : Dialogue.Only Request.OfWalk (Sync.walkAll rules budget pairs) :=
      Sync.only_walkAll pairs
    have hof := honly.commands fs out ⟨files, sink, {}, #[]⟩ command
    rw [hwalks] at hof
    exact (hof hcommand).resolve_left List.not_mem_nil
  · rw [hcommands, List.length_append, ← hcount]
    exact hreport

/-- **A synchronisation is its walks and the end.** Whatever the file system, the pairs and the
sink: if a synchronisation succeeds, the sink has accepted what the walks through the pairs by
themselves emit, one after another, none of it for the version control, and then the closing
batches. The report lists what these walks queued, in their order, counts all commands, and has a
conflict if one of them has. Then there are paths to delete and paths to add, so all three
batches are there. -/
theorem sync_concatenates {σ τ : Type} (fs : FileSystem σ) (out : Sink τ) (rules : Rules)
    (budget : Nat) (pairs : List Pair) (files : σ) (sink : τ) (report : Report) (finish : Run σ τ)
    (h : (sync rules budget pairs).run fs out ⟨files, sink, {}, #[]⟩ = (.ok report, finish)) :
    ∃ runs, Alone rules budget fs pairs files runs ∧
      finish.commands = runs.flatMap Run.commands ++ report.closing rules ∧
      (∀ command ∈ runs.flatMap Run.commands, command.isVersionControl = false) ∧
      report.adds.toList = (runs.flatMap fun own => own.session.adds.toList) ∧
      report.deletes.toList = (runs.flatMap fun own => own.session.deletes.toList) ∧
      report.conflict = (runs.any fun own => own.session.conflict) ∧
      report.commands = finish.commands.length ∧
      (report.conflict = true → report.closing rules =
        [.delete report.deletes.toList, .commit rules.commitMessage report.deletes.toList,
          .add report.adds.toList]) := by
  obtain ⟨runs, walked, halone, hruns, hcommands, hof, -, hreport⟩ := exists_alone_of_sync_ok h
  have hwalked : walked.commands = runs.flatMap Run.commands := hruns.commands
  have hadds : report.adds.toList = runs.flatMap fun own => own.session.adds.toList := by
    rw [hreport]
    exact hruns.adds
  have hdeletes : report.deletes.toList = runs.flatMap fun own => own.session.deletes.toList := by
    rw [hreport]
    exact hruns.deletes
  have hconflict : report.conflict = runs.any fun own => own.session.conflict := by
    rw [hreport]
    exact hruns.conflict
  rw [hwalked] at hcommands hof
  refine ⟨runs, halone, hcommands, hof, hadds, hdeletes, hconflict, ?_, fun hflag => ?_⟩
  · rw [hreport]
  · obtain ⟨hadd, hdelete⟩ := halone.queues_of_conflict (hconflict.symm.trans hflag)
    rw [← hadds] at hadd
    rw [← hdeletes] at hdelete
    exact Report.closing_of_conflict rules hflag hadd hdelete

/-- Two pairs, one of them with a conflict. -/
theorem sync_concatenates_swapped :
    let table : Table := ⟨[(.ofString "s", .file []), (.ofString "d", .directory [[0x61]]),
      (.ofString "d/a", .file []), (.ofString "t", .directory [[0x62]]), (.ofString "t/b", .file [])],
      []⟩
    let pairs : List Pair := [⟨.ofString "s", .ofString "d"⟩, ⟨.ofString "t", .ofString "e"⟩]
    ∃ report finish,
      (sync {} 20 pairs).run table.fileSystem (.collect none) ⟨(), #[], {}, #[]⟩ =
          (.ok report, finish) ∧
        report.conflict = true ∧
        ∃ runs, Alone {} 20 table.fileSystem pairs () runs ∧
          finish.commands = runs.flatMap Run.commands ++ report.closing {} ∧
          (∀ command ∈ runs.flatMap Run.commands, command.isVersionControl = false) ∧
          report.adds.toList = (runs.flatMap fun own => own.session.adds.toList) ∧
          report.deletes.toList = (runs.flatMap fun own => own.session.deletes.toList) ∧
          report.conflict = (runs.any fun own => own.session.conflict) ∧
          report.commands = finish.commands.length ∧
          (report.conflict = true → report.closing {} =
            [.delete report.deletes.toList, .commit ({} : Rules).commitMessage report.deletes.toList,
              .add report.adds.toList]) := by
  intro table pairs
  have hflag : ((sync {} 20 pairs).run table.fileSystem (.collect none)
      ⟨(), #[], {}, #[]⟩).1.toOption.map Report.conflict = some true := by
    decide +kernel
  rcases hrun : (sync {} 20 pairs).run table.fileSystem (.collect none) ⟨(), #[], {}, #[]⟩ with
    ⟨failure | report, finish⟩
  · rw [hrun] at hflag
    cases hflag
  · rw [hrun] at hflag
    exact ⟨report, finish, rfl, Option.some.inj hflag, sync_concatenates _ _ _ _ _ _ _ _ _ hrun⟩

end TreePlan

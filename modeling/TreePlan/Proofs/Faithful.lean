import TreePlan.Encoding
import TreePlan.Proofs.Batches
import TreePlan.Proofs.Events
import TreePlan.Proofs.Parallel
import TreePlan.Proofs.Script

/-!
# Only text comes out

The names in a file system are bytes, and so are the paths of a pair. A walk looks at both paths of
a pair before anything else, so every request that it makes is about text (`makes_walkAll`). What
it notes for the end is text too, and with it the commands that close a synchronisation.

* `Run.Faithful` is what every request of text preserves, for a sink that is watched: the commands
  that a sink refuses are handed to it all the same.
* `faithful_sync` says that it holds wherever a synchronisation ends.
* Commands and reports of text lose nothing on their command lines (`Command.words_bytes`) and as
  documents.
-/

namespace TreePlan

/-! ## What text is good for -/

theorem Path.bytes_shown {path : Path} (h : path.isText = true) :
    Bytes.ofString path.shown = path.bytes :=
  congrArg Path.bytes (Path.ofString_shown h)

theorem Path.isSome_encode {path : Path} (h : path.isText = true) : path.encode?.isSome = true := by
  rw [encode?, text?, Option.isSome_map, Option.isSome_map]
  exact h

theorem exists_mapM {α β : Type} {f : α → Option β} {items : List α}
    (h : ∀ item ∈ items, (f item).isSome = true) : ∃ images, items.mapM f = some images := by
  induction items with
  | nil => exact ⟨[], rfl⟩
  | cons item items ih =>
      obtain ⟨hfirst, hrest⟩ := List.forall_mem_cons.mp h
      obtain ⟨image, himage⟩ := Option.isSome_iff_exists.mp hfirst
      obtain ⟨images, himages⟩ := ih hrest
      exact ⟨image :: images, by simp [himage, himages]⟩

theorem exists_encodePaths {paths : List Path} (h : ∀ path ∈ paths, path.isText = true) :
    ∃ document, encodePaths? paths = some document := by
  obtain ⟨texts, htexts⟩ := exists_mapM fun path hpath => Path.isSome_encode (h path hpath)
  exact ⟨.list texts, by rw [encodePaths?, htexts]; rfl⟩

namespace Command

/-- The words of a command line in front of its paths. -/
def options : Command → List String
  | .remove _ false => ["rm"]
  | .remove _ true => ["rm", "-r"]
  | .copy .. => ["cp", "-f"]
  | .mkdir _ => ["mkdir"]
  | .delete _ => ["svn", "delete"]
  | .commit message _ => ["svn", "commit", "-m", message]
  | .add _ => ["svn", "add", "--depth=empty"]

theorem words_eq (command : Command) :
    command.words = command.options ++ command.paths.map Path.shown := by
  cases command with
  | remove path recursive => cases recursive <;> rfl
  | copy | mkdir | delete | commit | add => rfl

/-- The paths of a command of text stand in its words byte for byte. -/
theorem words_bytes {command : Command} (h : command.IsText) :
    command.words.map Bytes.ofString =
      command.options.map Bytes.ofString ++ command.paths.map Path.bytes := by
  rw [words_eq, List.map_append, List.map_map]
  congr 1
  exact List.map_congr_left fun path hpath => Path.bytes_shown (h path hpath)

theorem exists_fields {command : Command} (h : command.IsText) :
    ∃ fields, command.fields? = some fields := by
  have hpath : ∀ path ∈ command.paths, ∃ document, path.encode? = some document :=
    fun path hmem => Option.isSome_iff_exists.mp (Path.isSome_encode (h path hmem))
  cases command with
  | remove path recursive =>
      obtain ⟨document, hdocument⟩ := hpath path (.head _)
      exact ⟨_, by rw [fields?, hdocument]; rfl⟩
  | mkdir path =>
      obtain ⟨document, hdocument⟩ := hpath path (.head _)
      exact ⟨_, by rw [fields?, hdocument]; rfl⟩
  | copy source target =>
      obtain ⟨first, hfirst⟩ := hpath source (.head _)
      obtain ⟨second, hsecond⟩ := hpath target (.tail _ (.head _))
      exact ⟨_, by rw [fields?, hfirst, hsecond]; rfl⟩
  | delete paths | commit _ paths | add paths =>
      have htext : ∀ path ∈ paths, path.isText = true := h
      obtain ⟨document, hdocument⟩ := exists_encodePaths htext
      exact ⟨_, by rw [fields?, hdocument]; rfl⟩

/-- A command of text is a document, with and without its line. -/
theorem isSome_encode {command : Command} (h : command.IsText) :
    command.encode?.isSome = true ∧ command.encodeWithLine?.isSome = true := by
  obtain ⟨fields, hfields⟩ := exists_fields h
  rw [encode?, encodeWithLine?, hfields]
  exact ⟨rfl, rfl⟩

end Command

/-- All paths of the report are text. -/
def Report.IsText (report : Report) : Prop :=
  ∀ path ∈ report.adds.toList ++ report.deletes.toList, path.isText = true

theorem Report.isSome_encode {report : Report} (h : report.IsText) :
    report.encode?.isSome = true := by
  obtain ⟨adds, hadds⟩ := exists_encodePaths fun path hmem => h path (List.mem_append_left _ hmem)
  obtain ⟨deletes, hdeletes⟩ :=
    exists_encodePaths fun path hmem => h path (List.mem_append_right _ hmem)
  rw [encode?, hadds, hdeletes]
  rfl

/-! ## The requests of a walk -/

/-- All paths that a request asks about, hands over, or notes are text. -/
def Request.IsText : Request → Prop
  | .ask query => ∀ path ∈ query.paths, path.isText = true
  | .emit command => command.IsText
  | .note (.add path) | .note (.delete path) => path.isText = true
  | .note .conflict | .log _ | .review => True

def Task.Checked : Task → Prop
  | .visit .. => True
  | .resume pair _ _ _ => pair.IsText

theorem Request.About.isText {pair : Pair} (h : pair.IsText) {r : Request} (hr : About pair r) :
    r.IsText := by
  cases hr with
  | listSource => exact List.forall_mem_singleton.mpr h.source
  | listDestination => exact List.forall_mem_singleton.mpr h.destination
  | same => exact List.forall_mem_cons.mpr ⟨h.source, List.forall_mem_singleton.mpr h.destination⟩
  | copy => exact List.forall_mem_cons.mpr ⟨h.source, List.forall_mem_singleton.mpr h.destination⟩
  | remove | mkdir => exact List.forall_mem_singleton.mpr h.destination
  | add | delete => exact h.destination
  | typeConflict | conflict => trivial

theorem Task.LeftOf.checked {pair : Pair} (h : pair.IsText) {t : Task} (ht : LeftOf pair t) :
    t.Checked := by
  cases ht with
  | visit => trivial
  | resume => exact h

section
open Dialogue
variable {rules : Rules}

theorem makes_step {t : Task} (h : t.Checked) :
    Makes Request.IsText (fun first => ∀ t ∈ first, t.Checked) (Walk.step rules t) := by
  have hperform : ∀ (pair : Pair) (source destination : Kind) (actions : List Action), pair.IsText →
      Makes Request.IsText (fun first => ∀ t ∈ first, t.Checked)
        (Walk.perform rules pair source destination actions) := by
    intro pair source destination actions hpair
    exact (makes_perform rules pair source destination actions).mono
      (fun _ hr => hr.isText hpair) (fun _ hfirst t ht => (hfirst t ht).checked hpair)
  have hkind : ∀ (gone : Bool) {path : Path}, path.isText = true →
      Only Request.IsText (Walk.kindAt gone path) :=
    fun gone _ hpath => only_kindAt gone (List.forall_mem_singleton.mpr hpath)
  cases t with
  | resume pair source destination actions => exact hperform _ _ _ _ h
  | visit pair sourceGone destinationGone =>
      by_cases hpair : pair.IsText
      · rw [Walk.step_visit hpair]
        refine Stays.bind (hkind sourceGone hpair.source) fun source _ => ?_
        refine Stays.bind (hkind destinationGone hpair.destination) fun destination _ => ?_
        have hlog : (Request.log (.visiting source destination pair)).IsText := trivial
        exact Stays.bind (Only.request hlog) fun _ _ => hperform _ _ _ _ hpair
      · rw [Walk.step_refused hpair]
        exact .fail _

/-- **Walks speak of text only.** -/
theorem makes_walkAll (rules : Rules) (budget : Nat) (pairs : List Pair) :
    Makes Request.IsText (fun _ => True) (Sync.walkAll rules budget pairs) :=
  Sync.stays_walkAll (fun _ => trivial) fun _ _ =>
    stays_workOff (fun _ => makes_step) budget (List.forall_mem_singleton.mpr trivial)

end

/-! ## Watched sinks -/

section
variable {σ τ α : Type} {fs : FileSystem σ} {out : Sink τ} {rules : Rules}

/-- A sink that is watched: all that is handed to it is kept, also what it refuses. -/
def Sink.watch (out : Sink τ) : Sink (List Command × τ) where
  accept command state :=
    let (answer, after) := out.accept command state.2
    (answer, state.1 ++ [command], after)

theorem Sink.accept_watch {command : Command} {state : List Command × τ}
    {answer : Except EmitError Unit} {after : τ}
    (h : out.accept command state.2 = (answer, after)) :
    out.watch.accept command state = (answer, state.1 ++ [command], after) := by
  show ((out.accept command state.2).1, _, (out.accept command state.2).2) = _
  rw [h]

def Run.unwatch (run : Run σ (List Command × τ)) : Run σ τ := { run with sink := run.sink.2 }

theorem Run.reply_watch (r : Request) (start : Run σ (List Command × τ)) :
    Run.reply fs out r start.unwatch =
      ((Run.reply fs out.watch r start).1, (Run.reply fs out.watch r start).2.unwatch) := by
  cases r with
  | ask | log | note | review => rfl
  | emit command =>
      rcases haccept : out.accept command start.sink.2 with ⟨cause | ⟨⟩, after⟩
      · simp only [Run.reply, Run.unwatch, Sink.accept_watch haccept, haccept]
      · simp only [Run.reply, Run.unwatch, Sink.accept_watch haccept, haccept]

/-- Watching a sink changes nothing. -/
theorem Dialogue.run_watch (d : Dialogue α) (start : Run σ (List Command × τ)) :
    d.run fs out start.unwatch =
      ((d.run fs out.watch start).1, (d.run fs out.watch start).2.unwatch) :=
  (d.only_true.run_view Run.unwatch (fun r _ => Run.reply_watch r) start).1

/-! ## Runs of text -/

/-- All paths are text: those that are kept for the end, those that were asked about, and those of
all commands that were handed over. -/
structure Run.Faithful (run : Run σ (List Command × τ)) : Prop where
  adds : ∀ path ∈ run.session.adds.toList, path.isText = true
  deletes : ∀ path ∈ run.session.deletes.toList, path.isText = true
  queries : ∀ query ∈ run.queries, ∀ path ∈ query.paths, path.isText = true
  handed : ∀ command ∈ run.sink.1, command.IsText

theorem Run.faithful_start (files : σ) (sink : τ) :
    Run.Faithful ⟨files, ([], sink), {}, #[]⟩ where
  adds := List.forall_mem_nil _
  deletes := List.forall_mem_nil _
  queries := List.forall_mem_nil _
  handed := List.forall_mem_nil _

theorem Run.Faithful.reply (fs : FileSystem σ) (out : Sink τ) {start : Run σ (List Command × τ)}
    (h : start.Faithful) {r : Request} (hr : r.IsText) :
    (Run.reply fs out.watch r start).2.Faithful := by
  -- What was asked is text, also where the answer is a failure.
  have hqueries : ∀ query ∈ (Run.reply fs out.watch r start).2.queries, ∀ path ∈ query.paths,
      path.isText = true := by
    obtain ⟨new, hnew, hrequest⟩ := Run.exists_events_reply fs out.watch r start
    intro query hquery
    rw [mem_queries_iff, hnew, List.mem_append] at hquery
    rcases hquery with hstart | hmem
    · exact h.queries query (mem_queries_iff.mpr hstart)
    · obtain rfl : .ask query = r := hrequest _ hmem
      exact hr
  cases r with
  | ask | log | review => exact ⟨h.adds, h.deletes, hqueries, h.handed⟩
  | emit command =>
      have hhanded : ∀ other ∈ start.sink.1 ++ [command], other.IsText :=
        List.forall_mem_append.mpr ⟨h.handed, List.forall_mem_singleton.mpr hr⟩
      rcases haccept : out.accept command start.sink.2 with ⟨cause | ⟨⟩, after⟩
      · -- refused, and handed over all the same
        simp only [Run.reply, Sink.accept_watch haccept] at hqueries ⊢
        exact ⟨h.adds, h.deletes, hqueries, hhanded⟩
      · simp only [Run.reply, Sink.accept_watch haccept] at hqueries ⊢
        exact ⟨h.adds, h.deletes, hqueries, hhanded⟩
  | note n =>
      have hpush : ∀ (paths : Array Path) (path : Path), (∀ p ∈ paths.toList, p.isText = true) →
          path.isText = true → ∀ p ∈ (paths.push path).toList, p.isText = true := by
        intro paths path hpaths hpath
        rw [Array.toList_push]
        exact List.forall_mem_append.mpr ⟨hpaths, List.forall_mem_singleton.mpr hpath⟩
      cases n with
      | conflict => exact ⟨h.adds, h.deletes, hqueries, h.handed⟩
      | add path => exact ⟨hpush _ path h.adds hr, h.deletes, hqueries, h.handed⟩
      | delete path => exact ⟨h.adds, hpush _ path h.deletes hr, hqueries, h.handed⟩

theorem Run.Faithful.run (fs : FileSystem σ) (out : Sink τ) {d : Dialogue α}
    (hd : Dialogue.Only Request.IsText d) {start : Run σ (List Command × τ)} (h : start.Faithful) :
    (d.run fs out.watch start).2.Faithful :=
  hd.keeps Run.Faithful (fun _ hr _ hrun => hrun.reply fs out hr) h

/-- **Wherever a synchronisation ends**, all paths in it were text. -/
theorem faithful_sync (budget : Nat) (pairs : List Pair) {start : Run σ (List Command × τ)}
    (h : start.Faithful) : ((sync rules budget pairs).run fs out.watch start).2.Faithful := by
  have hwalks := h.run fs out (makes_walkAll rules budget pairs).only
  rcases hwalked : (Sync.walkAll rules budget pairs).run fs out.watch start with
    ⟨failure | ⟨⟩, walked⟩
  · -- a walk failed, so the notes are not looked up
    rw [hwalked] at hwalks
    rw [Sync.run_sync_of_error hwalked]
    exact hwalks
  · rw [hwalked] at hwalks
    -- What is looked up are notes of text.
    have hcommands : ∀ command ∈ Sync.batches rules walked.session, (Request.emit command).IsText :=
      Sync.forall_paths_of_mem_batches hwalks.adds hwalks.deletes
    rw [Sync.run_sync_of_ok hwalked]
    exact hwalks.run fs out (Sync.only_conclude hcommands trivial fun _ => trivial)

/-- A report is made of what was noted. -/
theorem isText_report {budget : Nat} {pairs : List Pair} {start finish : Run σ (List Command × τ)}
    {report : Report} (h : start.Faithful)
    (hrun : (sync rules budget pairs).run fs out.watch start = (.ok report, finish)) :
    report.IsText := by
  obtain ⟨walked, hwalks, -, -, rfl⟩ := Sync.exists_of_sync_ok hrun
  have hwalked := h.run fs out (makes_walkAll rules budget pairs).only
  rw [hwalks] at hwalked
  exact List.forall_mem_append.mpr ⟨hwalked.adds, hwalked.deletes⟩

end

end TreePlan

import TreePlan.Proofs.Faithful

/-!
# Transcripts

A run keeps its events, but not what the file system answered, nor the command that a sink refused.
Both can be kept by partners that are watched: `Sink.watch` keeps all that is handed to a sink, and
`FileSystem.watch` keeps every query with its answer. Watching changes nothing
(`Dialogue.run_transcript`).

* `Requested` lists the requests that were made between two states of a watched run.
* `Dialogue.Stays.requested`: what a dialogue keeps to as long as queries are answered in a certain
  way, it keeps to in every run in which they were answered in this way.
-/

namespace TreePlan

variable {σ τ α : Type} {fs : FileSystem σ} {out : Sink τ}

/-! ## Watched file systems -/

structure Answered where
  query : Query
  result : Except Failure query.Answer

/-- A file system that is watched: every query is kept with its answer, in order. -/
def FileSystem.watch (fs : FileSystem σ) : FileSystem (List Answered × σ) where
  answer query state :=
    let (result, after) := fs.answer query state.2
    (result, state.1 ++ [⟨query, result⟩], after)

namespace Run

/-- The run without what its file system kept. -/
def unheard (run : Run (List Answered × σ) τ) : Run σ τ := { run with files := run.files.2 }

def listening (run : Run σ τ) : Run (List Answered × σ) τ := { run with files := ([], run.files) }

def Heard (run : Run (List Answered × σ) τ) (query : Query) (answer : query.Answer) : Prop :=
  ⟨query, .ok answer⟩ ∈ run.files.1

theorem reply_heard (r : Request) (start : Run (List Answered × σ) τ) :
    Run.reply fs out r start.unheard =
      ((Run.reply fs.watch out r start).1, (Run.reply fs.watch out r start).2.unheard) := by
  cases r with
  | ask | log | note | review => rfl
  | emit command =>
      simp only [Run.reply, unheard]
      rcases out.accept command start.sink with ⟨cause | ⟨⟩, sink⟩
      · rfl
      · rfl

end Run

namespace Dialogue

theorem run_heard (d : Dialogue α) (start : Run (List Answered × σ) τ) :
    d.run fs out start.unheard =
      ((d.run fs.watch out start).1, (d.run fs.watch out start).2.unheard) :=
  (d.only_true.run_view Run.unheard (fun r _ => Run.reply_heard r) start).1

theorem concludes_heard (d : Dialogue α) (start : Run (List Answered × σ) τ) :
    d.concludes fs out start.unheard = d.concludes fs.watch out start :=
  (d.only_true.run_view Run.unheard (fun r _ => Run.reply_heard r) start).2

/-- What was heard stays heard. -/
theorem heard_prefix_run (d : Dialogue α) (start : Run (List Answered × σ) τ) :
    start.files.1 <+: (d.run fs.watch out start).2.files.1 := by
  refine d.only_true.keeps (fun run : Run (List Answered × σ) τ => start.files.1 <+: run.files.1)
    (fun r _ run h => ?_) List.prefix_rfl
  cases r with
  | ask query => exact h.trans (List.prefix_append _ _)
  | log | note | review => exact h
  | emit command =>
      rw [Run.reply]
      rcases out.accept command run.sink with ⟨cause | ⟨⟩, sink⟩
      · exact h
      · exact h

/-- The queries of a run with their answers, in order. -/
def heard (fs : FileSystem σ) (out : Sink τ) (d : Dialogue α) (start : Run σ τ) : List Answered :=
  (d.run fs.watch out start.listening).2.files.1

/-- What was heard is what the file system gave, in some state of it. -/
theorem gives_of_mem_heard (d : Dialogue α) (start : Run (List Answered × σ) τ) :
    ∀ answered ∈ (d.run fs.watch out start).2.files.1, answered ∈ start.files.1 ∨
      ∃ files, (fs.answer answered.query files).1 = answered.result := by
  refine d.only_true.keeps
    (fun run : Run (List Answered × σ) τ => ∀ answered ∈ run.files.1, answered ∈ start.files.1 ∨
      ∃ files, (fs.answer answered.query files).1 = answered.result)
    (fun r _ run h => ?_) (fun _ => .inl)
  cases r with
  | log | note | review => exact h
  | ask query =>
      intro answered hmem
      rcases List.mem_append.mp hmem with hold | hnew
      · exact h answered hold
      · rw [List.mem_singleton.mp hnew]
        exact .inr ⟨run.files.2, rfl⟩
  | emit command =>
      rw [Run.reply]
      rcases out.accept command run.sink with ⟨cause | ⟨⟩, sink⟩
      · exact h
      · exact h

/-- Watching both partners changes nothing. -/
theorem run_transcript (d : Dialogue α) (start : Run (List Answered × σ) (List Command × τ)) :
    d.run fs out start.unheard.unwatch =
      ((d.run fs.watch out.watch start).1, (d.run fs.watch out.watch start).2.unheard.unwatch) := by
  rw [run_watch, run_heard]

end Dialogue

/-! ## The requests of a run -/

namespace Request

/-- The query that a request asks. -/
def query? : Request → Option Query
  | .ask query => some query
  | _ => none

def command? : Request → Option Command
  | .emit command => some command
  | _ => none

/-- The paths that a request asks about, hands over, or queues. -/
def paths : Request → List Path
  | .ask query => query.paths
  | .emit command => command.paths
  | .note (.add path) | .note (.delete path) => [path]
  | .note .conflict | .log _ | .review => []

theorem mem_paths_of_command {r : Request} {command : Command} (h : r.command? = some command)
    {path : Path} (hpath : path ∈ command.paths) : path ∈ r.paths := by
  cases r with
  | emit other =>
      obtain rfl : other = command := Option.some.inj h
      exact hpath
  | ask | log | note | review => cases h

theorem mem_paths_of_queued {r : Request} {path : Path}
    (h : r.added? = some path ∨ r.deleted? = some path) : path ∈ r.paths := by
  cases r with
  | note n =>
      cases n with
      | conflict => exact h.elim nofun nofun
      | add | delete =>
          rcases h with h | h <;> cases h
          exact List.mem_singleton_self _
  | ask | emit | log | review => exact h.elim nofun nofun

end Request

/-- Between two states of a watched run the requests of `trace` were made: these are the queries
that were asked, the commands that were handed over, refused or not, and the paths that were
queued. -/
structure Requested (trace : List Request) (start finish : Run σ (List Command × τ)) : Prop where
  queries : finish.queries = start.queries ++ trace.filterMap Request.query?
  handed : finish.sink.1 = start.sink.1 ++ trace.filterMap Request.command?
  adds : finish.session.adds.toList = start.session.adds.toList ++ trace.filterMap Request.added?
  deletes : finish.session.deletes.toList =
    start.session.deletes.toList ++ trace.filterMap Request.deleted?

namespace Requested

variable {start mid finish : Run σ (List Command × τ)} {xs ys : List Request}

theorem refl (start : Run σ (List Command × τ)) : Requested [] start start :=
  ⟨by simp, by simp, by simp, by simp⟩

theorem trans (hx : Requested xs start mid) (hy : Requested ys mid finish) :
    Requested (xs ++ ys) start finish where
  queries := by rw [hy.queries, hx.queries, List.filterMap_append, List.append_assoc]
  handed := by rw [hy.handed, hx.handed, List.filterMap_append, List.append_assoc]
  adds := by rw [hy.adds, hx.adds, List.filterMap_append, List.append_assoc]
  deletes := by rw [hy.deletes, hx.deletes, List.filterMap_append, List.append_assoc]

/-- A request is made whether it is granted or not. -/
theorem reply (fs : FileSystem σ) (out : Sink τ) (r : Request) (start : Run σ (List Command × τ)) :
    Requested [r] start (Run.reply fs out.watch r start).2 := by
  cases r with
  | ask | log | review =>
      constructor <;>
        simp [Run.reply, Run.happened, Run.queries, Request.query?, Request.command?,
          Request.added?, Request.deleted?]
  | note n =>
      cases n <;>
        constructor <;>
          simp [Run.reply, Session.note, Run.queries, Request.query?, Request.command?,
            Request.added?, Request.deleted?]
  | emit command =>
      rcases haccept : out.accept command start.sink.2 with ⟨cause | ⟨⟩, after⟩
      all_goals
        simp only [Run.reply, Sink.accept_watch haccept]
        constructor <;>
          simp [Session.countEmitted, Run.queries, Request.query?, Request.command?,
            Request.added?, Request.deleted?]

end Requested

/-- **A dialogue keeps to its requests.** In a run in which all queries were answered as `may`
permits, all requests are of the sort that the dialogue keeps to under `may`. -/
theorem Dialogue.Stays.requested {may : (q : Query) → q.Answer → Prop} {P : Request → Prop}
    {Q : α → Prop} {d : Dialogue α} (hd : Stays may P Q d) (fs : FileSystem σ) (out : Sink τ)
    (start : Run (List Answered × σ) (List Command × τ))
    (hmay : ∀ query answer, (d.run fs.watch out.watch start).2.Heard query answer →
      may query answer) :
    ∃ trace, (∀ r ∈ trace, P r) ∧ Requested trace start (d.run fs.watch out.watch start).2 := by
  induction hd generalizing start with
  | done | fail => exact ⟨[], List.forall_mem_nil _, .refl start⟩
  | @call r next hr _ ih =>
      have hrequested := Requested.reply fs.watch out r start
      rw [run_call] at hmay ⊢
      rcases hreply : Run.reply fs.watch out.watch r start with ⟨failure | answer, after⟩
      · -- handed over or asked, though it failed
        rw [hreply] at hrequested
        exact ⟨[r], List.forall_mem_singleton.mpr hr, hrequested⟩
      · rw [hreply] at hmay hrequested
        -- The answer is among those that were heard in the end.
        have hpermitted : r.May may answer := by
          cases r with
          | emit | log | note | review => trivial
          | ask query =>
              have hanswer : (fs.answer query start.files.2).1 = .ok answer :=
                congrArg Prod.fst hreply
              have hafter : after.files.1 = start.files.1 ++ [⟨query, .ok answer⟩] := by
                rw [← hanswer]
                exact congrArg (fun state => state.2.files.1) hreply.symm
              apply hmay
              apply (heard_prefix_run (next answer) after).subset
              rw [hafter]
              exact List.mem_append_right _ (List.mem_singleton_self _)
        obtain ⟨trace, hpart, hrest⟩ := ih answer hpermitted after hmay
        exact ⟨r :: trace, List.forall_mem_cons.mpr ⟨hr, hpart⟩, hrequested.trans hrest⟩

/-- What was heard in a run is what the file system gives. -/
theorem Dialogue.gives_of_heard (d : Dialogue α) {files : σ} {sink : τ} {session : Session}
    {events : Array Event} {query : Query} {answer : query.Answer}
    (h : (d.run fs.watch out ⟨([], files), sink, session, events⟩).2.Heard query answer) :
    fs.Gives query answer := by
  obtain ⟨now, hgives⟩ := (d.gives_of_mem_heard _ _ h).resolve_left List.not_mem_nil
  exact ⟨now, _, Prod.ext hgives rfl⟩

/-- What a dialogue keeps to whatever a file system gives, it keeps to in every run with it. -/
theorem Dialogue.Stays.exists_requested_of_gives {may : (q : Query) → q.Answer → Prop}
    {P : Request → Prop} {Q : α → Prop} {d : Dialogue α} (hd : Stays may P Q d)
    (fs : FileSystem σ) (out : Sink τ) (start : Run σ (List Command × τ))
    (hmay : ∀ query answer, fs.Gives query answer → may query answer) :
    ∃ trace, (∀ r ∈ trace, P r) ∧ Requested trace start (d.run fs out.watch start).2 := by
  obtain ⟨trace, hpart, hrequested⟩ :=
    hd.requested fs out start.listening fun query answer h => hmay query answer (d.gives_of_heard h)
  have hrun : (d.run fs out.watch start).2 = (d.run fs.watch out.watch start.listening).2.unheard :=
    congrArg Prod.snd (run_heard d start.listening)
  refine ⟨trace, hpart, ?_⟩
  rw [hrun]
  exact ⟨hrequested.queries, hrequested.handed, hrequested.adds, hrequested.deletes⟩

/-- What a dialogue always keeps to, it keeps to in every run. -/
theorem Dialogue.Stays.exists_requested {P : Request → Prop} {Q : α → Prop} {d : Dialogue α}
    (hd : Stays (fun _ _ => True) P Q d) (fs : FileSystem σ) (out : Sink τ)
    (start : Run σ (List Command × τ)) :
    ∃ trace, (∀ r ∈ trace, P r) ∧ Requested trace start (d.run fs out.watch start).2 :=
  hd.exists_requested_of_gives fs out start fun _ _ _ => trivial

end TreePlan

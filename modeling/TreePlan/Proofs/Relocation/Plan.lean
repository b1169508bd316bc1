import TreePlan.Proofs.Relocation
import TreePlan.Proofs.Status

/-!
# Plans from elsewhere

What pairs that are taken from a base get planned over a file system, the pairs as written get over
the file system as it is seen from there (`FileSystem.takenFrom`): the same plan or the same failure
but for the base in front of all paths, and by the same queries.

* `FileSystem.IsTakenFrom` relates two file systems of which one is the other as seen from a base.
* `Dialogue.Moves.run` relates the runs of two dialogues that say the same with paths taken from the
  base.
-/

namespace TreePlan

/-! ## File systems seen from a base -/

section
variable {σ τ τ' : Type} {near far : FileSystem σ} {base : Path}

/-- `near` answers every query as `far` does with its paths taken from the base, and what `far`
reports at a path that is taken from the base it reports at the path itself. -/
def FileSystem.IsTakenFrom (near far : FileSystem σ) (base : Path) : Prop :=
  ∀ query state, far.answer (query.resolve base) state =
    (((near.answer query state).1.map (query.moveAnswer base)).mapError (Failure.resolve base),
      (near.answer query state).2)

def Query.bringBack (base : Path) : (query : Query) → (query.resolve base).Answer → query.Answer
  | .classify _, kind => kind
  | .list _, names => names
  | .same .., equal => equal

theorem Query.moveAnswer_bringBack (query : Query) (answer : (query.resolve base).Answer) :
    query.moveAnswer base (query.bringBack base answer) = answer := by
  cases query <;> rfl

theorem Query.paths_resolve (query : Query) :
    (query.resolve base).paths = query.paths.map base.join := by
  cases query <;> rfl

def Failure.path? : Failure → Option Path
  | .io path _ | .brokenLink path | .notText path => some path
  | .emit _ | .exhausted => none

def Failure.reportedAt (path : Path) : Failure → Failure
  | .io _ cause => .io path cause
  | .brokenLink _ => .brokenLink path
  | .notText _ => .notText path
  | .emit cause => .emit cause
  | .exhausted => .exhausted

/-- The failure of a query with its paths taken from the base, reported at the path of the query. -/
def Failure.reportedFor (base : Path) (query : Query) (failure : Failure) : Failure :=
  match query.paths.find? fun path => failure.path? = some (base.join path) with
  | some path => failure.reportedAt path
  | none => failure

def FileSystem.takenFrom (far : FileSystem σ) (base : Path) : FileSystem σ where
  answer query state :=
    let answered := far.answer (query.resolve base) state
    ((answered.1.map (query.bringBack base)).mapError (Failure.reportedFor base query), answered.2)

/-- Failures are reported at a path that was asked about. -/
def FileSystem.FailsWhereAsked (fs : FileSystem σ) : Prop :=
  ∀ query state failure, (fs.answer query state).1 = .error failure →
    ∃ path ∈ query.paths, failure.path? = some path

/-- A table fails where it is asked if each fault is about the path that it is a fault of. -/
theorem Table.failsWhereAsked {table : Table}
    (h : ∀ fault ∈ table.faults, fault.2.path? = some fault.1.2) :
    table.fileSystem.FailsWhereAsked := by
  have hcheck : ∀ question path failure, table.check question path = .error failure →
      failure.path? = some path := by
    intro question path failure hfails
    unfold check at hfails
    split at hfails
    · next found hfound =>
        cases hfails
        obtain ⟨before, after, hfaults, -⟩ := List.lookup_eq_some_iff.mp hfound
        exact h ((question, path), failure) (by simp [hfaults])
    · cases hfails
  rintro query ⟨⟩ failure hfails
  have hanswer : table.answer query = .error failure := hfails
  cases query with
  | classify path =>
      rcases hfirst : table.check .classify path with found | ⟨⟩
      · rw [answer, hfirst] at hanswer
        cases hanswer
        exact ⟨path, .head _, hcheck _ _ _ hfirst⟩
      · rw [answer, hfirst] at hanswer
        cases hanswer
  | list path =>
      rcases hfirst : table.check .list path with found | ⟨⟩
      · rw [answer, hfirst] at hanswer
        cases hanswer
        exact ⟨path, .head _, hcheck _ _ _ hfirst⟩
      · rw [answer, hfirst] at hanswer
        cases hanswer
  | same a b =>
      rcases hfirst : table.check .same a with found | ⟨⟩
      · -- it fails on the first file
        rw [answer, hfirst] at hanswer
        cases hanswer
        exact ⟨a, .head _, hcheck _ _ _ hfirst⟩
      · rcases hsecond : table.check .same b with found | ⟨⟩
        · -- it fails on the second file
          rw [answer, hfirst, hsecond] at hanswer
          cases hanswer
          exact ⟨b, .tail _ (.head _), hcheck _ _ _ hsecond⟩
        · rw [answer, hfirst, hsecond] at hanswer
          cases hanswer

theorem Failure.resolve_reportedAt {failure : Failure} {path : Path}
    (h : failure.path? = some (base.join path)) :
    (failure.reportedAt path).resolve base = failure := by
  cases failure <;> simp_all [path?, reportedAt, Failure.resolve]

theorem Failure.resolve_reportedFor {failure : Failure} {query : Query}
    (h : ∃ path ∈ (query.resolve base).paths, failure.path? = some path) :
    (failure.reportedFor base query).resolve base = failure := by
  unfold reportedFor
  split
  · -- the failure is about one of the paths
    next path hfind =>
      have hpath := List.find?_some hfind
      exact resolve_reportedAt (of_decide_eq_true hpath)
  · -- it has to be about one of them
    next hfind =>
      obtain ⟨path, hmem, hpath⟩ := h
      rw [Query.paths_resolve] at hmem
      obtain ⟨written, hwritten, rfl⟩ := List.mem_map.mp hmem
      exact absurd hpath (by simpa using List.find?_eq_none.mp hfind written hwritten)

theorem FileSystem.isTakenFrom_takenFrom (h : far.FailsWhereAsked) (base : Path) :
    (far.takenFrom base).IsTakenFrom far base := by
  intro query state
  have hfails := h (query.resolve base) state
  rcases hanswer : far.answer (query.resolve base) state with ⟨failure | answer, after⟩
  · rw [hanswer] at hfails
    simp only [takenFrom, hanswer, Except.map, Except.mapError,
      Failure.resolve_reportedFor (hfails failure rfl)]
  · simp only [takenFrom, hanswer, Except.map, Except.mapError, Query.moveAnswer_bringBack]

/-! ## Runs -/

/-- The second run did what the first one did, with all paths taken from the base. -/
structure Run.Moved (base : Path) (here : Run σ τ) (there : Run σ τ') : Prop where
  files : there.files = here.files
  session : there.session = here.session.resolve base
  events : there.events = here.events.map (Event.resolve base)

variable {out : Sink τ} {other : Sink τ'} {here : Run σ τ} {there : Run σ τ'}

theorem Run.Moved.reply (hnear : near.IsTakenFrom far base) (hout : out.AcceptsAll)
    (hother : other.AcceptsAll) (h : Moved base here there) (r : Request) :
    (Run.reply far other (r.resolve base) there).1 =
        ((Run.reply near out r here).1.map (r.moveReply base)).mapError (Failure.resolve base) ∧
      Moved base (Run.reply near out r here).2 (Run.reply far other (r.resolve base) there).2 := by
  obtain ⟨files, sink, session, events⟩ := here
  obtain ⟨_, sink', _, _⟩ := there
  obtain ⟨hfiles, hsession, hevents⟩ := h
  dsimp only at hfiles hsession hevents
  subst hfiles hsession hevents
  have hpush : ∀ event : Event, (events.map (Event.resolve base)).push (event.resolve base) =
      (events.push event).map (Event.resolve base) := fun _ => Array.map_push.symm
  cases r with
  | ask query =>
      simp only [Run.reply, Request.resolve, hnear query _]
      exact ⟨rfl, rfl, rfl, hpush (.asked query)⟩
  | emit command =>
      obtain ⟨next, haccept⟩ := hout command sink
      obtain ⟨next', haccept'⟩ := hother (command.resolve base) sink'
      simp only [Run.reply, Request.resolve, haccept, haccept']
      exact ⟨rfl, rfl, rfl, hpush (.emitted command)⟩
  | log record => exact ⟨rfl, rfl, rfl, hpush (.logged record)⟩
  | note n => exact ⟨rfl, rfl, (Session.resolve_note base session n).symm, rfl⟩
  | review => exact ⟨rfl, rfl, rfl, rfl⟩

/-- **Dialogues about the same things elsewhere end alike.** -/
theorem Dialogue.Moves.run {α β : Type} {f : α → β} {d : Dialogue α} {e : Dialogue β}
    (hnear : near.IsTakenFrom far base) (hout : out.AcceptsAll) (hother : other.AcceptsAll)
    (h : Moves base f d e) (hstart : Run.Moved base here there) :
    (e.run far other there).1 =
        ((d.run near out here).1.map f).mapError (Failure.resolve base) ∧
      Run.Moved base (d.run near out here).2 (e.run far other there).2 := by
  induction h generalizing here there with
  | done value => exact ⟨rfl, hstart⟩
  | fail failure => exact ⟨rfl, hstart⟩
  | @call r next moved _ ih =>
      obtain ⟨hanswer, hstates⟩ := hstart.reply hnear hout hother r
      rw [run_call, run_call]
      rcases hhere : Run.reply near out r here with ⟨failure | answer, after⟩
      all_goals
        rcases hthere : Run.reply far other (r.resolve base) there with ⟨failure' | answer', after'⟩
        all_goals
          rw [hhere, hthere] at hanswer hstates
          cases hanswer
      · exact ⟨rfl, hstates⟩
      · exact ih answer hstates

/-- What is seen of single events moves with them. -/
theorem Run.Moved.filterMap_events {γ : Type} {f : Event → Option γ} {g : γ → γ}
    (h : Run.Moved base here there) (hf : ∀ event, f (event.resolve base) = (f event).map g) :
    there.events.toList.filterMap f = (here.events.toList.filterMap f).map g := by
  rw [h.events, Array.toList_map, List.filterMap_map, List.map_filterMap]
  exact congrArg (here.events.toList.filterMap ·) (funext hf)

theorem Run.Moved.queries (h : Run.Moved base here there) :
    there.queries = here.queries.map (Query.resolve base) :=
  h.filterMap_events fun event => by cases event <;> rfl

theorem Run.Moved.commands (h : Run.Moved base here there) :
    there.commands = here.commands.map (Command.resolve base) :=
  h.filterMap_events fun event => by cases event <;> rfl

end

/-- **Planning from elsewhere.** Take a base that is text, and any file system as it is seen from
there. Pairs that are planned as they are written get the plan that the pairs taken from the base
get, or fail as they do, but for the base in front of all paths. Both ask the same queries in the
same order, and what is emitted on the way is the same, failures included. -/
theorem plan_from_elsewhere {base : Path} (hbase : base.isText = true) {σ : Type}
    (far : FileSystem σ) :
    (far.FailsWhereAsked → (far.takenFrom base).IsTakenFrom far base) ∧
      ∀ near : FileSystem σ, near.IsTakenFrom far base →
        ∀ (rules : Rules) (budget : Nat) (pairs : List Pair) (files : σ),
          let start : Run σ (Array Command) := ⟨files, #[], {}, #[]⟩
          let resolved := pairs.map (·.resolve base)
          let here := (plan rules budget pairs).run near (.collect none) start
          let there := (plan rules budget resolved).run far (.collect none) start
          let handed := (sync rules budget pairs).run near (.collect none) start
          let handedThere := (sync rules budget resolved).run far (.collect none) start
          there.1 = (here.1.map (Plan.resolve base)).mapError (Failure.resolve base) ∧
            there.1.isOk = here.1.isOk ∧
            there.2.queries = here.2.queries.map (Query.resolve base) ∧
            there.2.files = here.2.files ∧
            handedThere.1 =
              (handed.1.map (Report.resolve base)).mapError (Failure.resolve base) ∧
            handedThere.2.commands = handed.2.commands.map (Command.resolve base) ∧
            handedThere.2.queries = handed.2.queries.map (Query.resolve base) := by
  refine ⟨fun hfar => FileSystem.isTakenFrom_takenFrom hfar base, ?_⟩
  intro near hnear rules budget pairs files start resolved here there handed handedThere
  have hstart : Run.Moved base start start :=
    ⟨rfl, (Session.resolve_empty base).symm, Array.map_empty.symm⟩
  have hplans : Dialogue.Moves base (Plan.resolve base) (plan rules budget pairs)
      (plan rules budget resolved) := moves_plan hbase budget pairs
  have hsyncs : Dialogue.Moves base (Report.resolve base) (sync rules budget pairs)
      (sync rules budget resolved) := moves_sync hbase budget pairs
  obtain ⟨hplan, hruns⟩ :=
    hplans.run hnear Sink.acceptsAll_collect Sink.acceptsAll_collect hstart
  obtain ⟨hreport, hhanded⟩ :=
    hsyncs.run hnear Sink.acceptsAll_collect Sink.acceptsAll_collect hstart
  have hresult : there.1 = (here.1.map (Plan.resolve base)).mapError (Failure.resolve base) := hplan
  have hok : there.1.isOk = here.1.isOk := by
    rw [hresult]
    cases here.1 <;> rfl
  exact ⟨hresult, hok, hruns.queries, hruns.files, hreport, hhanded.commands, hhanded.queries⟩

/-- Pairs of relative, absolute and empty paths, and one that cannot be looked at. -/
theorem plan_from_elsewhere_broken :
    let base : Path := .ofString "B"
    let table : Table :=
      ⟨[(.ofString "B/s", .directory [[0x61]]), (.ofString "B/s/a", .file []),
          (.ofString "/r", .file [0x31]), (.ofString "B/", .file [0x32])],
        [((.classify, .ofString "B/t"), .io (.ofString "B/t") .linkLoop)]⟩
    let far := table.fileSystem
    let near := far.takenFrom base
    let pairs : List Pair :=
      [⟨.ofString "s", .ofString "d"⟩, ⟨.ofString "/r", .empty⟩, ⟨.ofString "t", .ofString "t"⟩]
    let start : Run Unit (Array Command) := ⟨(), #[], {}, #[]⟩
    base.isText = true ∧ near.IsTakenFrom far base ∧
      ((plan {} 20 (pairs.take 2)).run near (.collect none) start).1.isOk = true ∧
      ((plan {} 20 pairs).run near (.collect none) start).1 =
        .error (.io (.ofString "t") .linkLoop) ∧
      ∀ shorter, ((plan {} 20 ((pairs.take shorter).map (·.resolve base))).run far (.collect none)
          start).1 =
        (((plan {} 20 (pairs.take shorter)).run near (.collect none) start).1.map
          (Plan.resolve base)).mapError (Failure.resolve base) := by
  intro base table far near pairs start
  have hbase : base.isText = true := by decide +kernel
  have hfar : far.FailsWhereAsked := Table.failsWhereAsked (by decide +kernel)
  have hnear : near.IsTakenFrom far base := (plan_from_elsewhere hbase far).1 hfar
  refine ⟨hbase, hnear, by decide +kernel, by decide +kernel, fun shorter => ?_⟩
  exact ((plan_from_elsewhere hbase far).2 near hnear {} 20 (pairs.take shorter) ()).1

end TreePlan

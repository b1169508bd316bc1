import TreePlan.Proofs.Alone
import TreePlan.Proofs.Session
import TreePlan.Proofs.Truncation
import TreePlan.Table
import Mathlib.Algebra.Ring.Nat

/-!
# The status agrees with the plan

`status` walks through each pair with a session of its own and counts, `plan` walks through all of
them with one session and then tells the version control. Over a file system that stands still both
do the same walks (`Dialogue.run_after`), so both fail at the same pair for the same reason, and
otherwise the counts add up to the plan (`AddsUp`).
-/

namespace TreePlan

/-! ## The rows -/

section
variable (answers : (q : Query) → Except Failure q.Answer) (rules : Rules) (budget : Nat)

def Run.row {σ τ : Type} (pair : Pair) (own : Run σ τ) : PairStatus :=
  .ofGathered pair ⟨(), own.session, own.commands.toArray⟩

def rowOf (pair : Pair) : Except (Pair × Failure) PairStatus :=
  let own := (walk rules budget pair).run (.ofAnswers answers) (.collect none) ⟨(), #[], {}, #[]⟩
  match own.1 with
  | .ok () => .ok (own.2.row pair)
  | .error failure => .error (pair, failure)

variable {answers rules budget} {τ τ' : Type} {out : Sink τ} {other : Sink τ'}

theorem run_pairStatus (out : Sink τ) (pair : Pair) (listener : Run Unit τ) :
    ((pairStatus rules budget pair).run (.ofAnswers answers) out listener).1.mapError (pair, ·) =
      rowOf answers rules budget pair := by
  obtain ⟨heard, hgather⟩ := Dialogue.exists_gather (.ofAnswers answers) out
    Sink.acceptsAll_collect (walk rules budget pair) #[] listener
  rw [pairStatus, Dialogue.run_bind, hgather, rowOf]
  cases ((walk rules budget pair).run (.ofAnswers answers) (.collect none) ⟨(), #[], {}, #[]⟩).1 <;>
    rfl

theorem statusRows_eq_mapM (out : Sink τ) (pairs : List Pair) (listener : Run Unit τ) :
    (statusRows (m := StateM (Run Unit τ)) (Run.reply (.ofAnswers answers) out) rules budget pairs
      listener).1 = pairs.mapM (rowOf answers rules budget) := by
  induction pairs generalizing listener with
  | nil => rfl
  | cons pair pairs ih =>
      rw [List.mapM_cons, ← run_pairStatus out pair listener, statusRows, Dialogue.bind_apply]
      rw [← Dialogue.run]
      rcases (pairStatus rules budget pair).run (.ofAnswers answers) out listener with
        ⟨failure | row, heard⟩
      · rfl
      · dsimp only
        rw [Except.mapError, ← ih heard, Dialogue.bind_apply]
        rcases statusRows (m := StateM (Run Unit τ)) (Run.reply (.ofAnswers answers) out) rules
          budget pairs heard with ⟨failed | rows, last⟩ <;> rfl

/-! ## Counting the commands -/

theorem countP_operations (commands : List Command) :
    (commands.countP fun | .copy .. => true | _ => false) +
        (commands.countP fun | .remove .. => true | _ => false) +
        (commands.countP fun | .mkdir .. => true | _ => false) =
      commands.countP fun command => !command.isVersionControl := by
  induction commands with
  | nil => rfl
  | cons command commands ih =>
      simp only [List.countP_cons, ← ih]
      cases command <;> simp [Command.isVersionControl] <;> omega

/-- What there is to do for a pair, apart from what the version control has to be told. -/
def PairStatus.operations (row : PairStatus) : Nat := row.copies + row.removes + row.mkdirs

theorem operations_row {σ : Type} (pair : Pair) (own : Run σ τ) :
    (own.row pair).operations = own.commands.countP fun command => !command.isVersionControl := by
  simp only [Run.row, PairStatus.operations, PairStatus.ofGathered, List.countP_toArray]
  exact countP_operations own.commands

theorem pending_row {row : PairStatus} :
    row.pending = true ↔ ¬ (row.operations = 0 ∧ row.adds = 0 ∧ row.deletes = 0) := by
  rw [PairStatus.pending, decide_eq_true_eq, PairStatus.operations]
  omega

/-! ## Rows of walks -/

/-- The rows count what the walks through their pairs left behind. -/
structure Counts (rows : List PairStatus) (runs : List (Run Unit (Array Command))) : Prop where
  adds : (rows.map PairStatus.adds).sum =
    (runs.flatMap fun own => own.session.adds.toList).length
  deletes : (rows.map PairStatus.deletes).sum =
    (runs.flatMap fun own => own.session.deletes.toList).length
  operations : (rows.map PairStatus.operations).sum =
    (runs.flatMap Run.commands).countP fun command => !command.isVersionControl
  conflict : rows.any PairStatus.conflict = runs.any fun own => own.session.conflict

/-- Pairs that can all be walked through have rows. -/
theorem Alone.exists_rows {pairs : List Pair} {files : Unit}
    {runs : List (Run Unit (Array Command))}
    (h : Alone rules budget (.ofAnswers answers) pairs files runs) :
    ∃ rows, pairs.mapM (rowOf answers rules budget) = .ok rows ∧ Counts rows runs := by
  induction h with
  | nil => exact ⟨[], rfl, rfl, rfl, rfl, rfl⟩
  | @cons pair pairs files own runs hwalk _ ih =>
      obtain ⟨rows, hrows, hcounts⟩ := ih
      have hrow : rowOf answers rules budget pair = .ok (own.row pair) := by
        rw [rowOf, hwalk]
      refine ⟨own.row pair :: rows, ?_, ?_, ?_, ?_, ?_⟩
      · rw [List.mapM_cons, hrow, hrows]
        rfl
      · rw [List.map_cons, List.sum_cons, hcounts.adds, List.flatMap_cons, List.length_append]
        rfl
      · rw [List.map_cons, List.sum_cons, hcounts.deletes, List.flatMap_cons, List.length_append]
        rfl
      · rw [List.map_cons, List.sum_cons, hcounts.operations, List.flatMap_cons,
          List.countP_append, operations_row]
      · rw [List.any_cons, hcounts.conflict, List.any_cons]
        rfl

/-- A walk that fails behind others fails by itself. -/
theorem rowOf_of_walk_error (hout : out.AcceptsAll) {pair : Pair} {start finish : Run Unit τ}
    {failure : Failure}
    (hwalk : (walk rules budget pair).run (.ofAnswers answers) out start =
      (.error failure, finish)) :
    rowOf answers rules budget pair = .error (pair, failure) := by
  -- By itself the walk fails as well, whatever was in the session before.
  have hafter : (walk rules budget pair).run (.ofAnswers answers) out start = _ :=
    walk_run_after pair start
  rw [hwalk] at hafter
  obtain ⟨heard, hgather⟩ := Dialogue.exists_gather (.ofAnswers answers) out hout
    (walk rules budget pair) start.sink start
  rw [← (Prod.mk.inj hafter).1] at hgather
  rw [← run_pairStatus out pair start, pairStatus, Dialogue.run_bind, hgather]
  rfl

/-! ## The two commands side by side -/

/-- A synchronisation can only fail in one of its walks, if every command is taken. -/
theorem walkAll_error_of_sync_error {σ : Type} {fs : FileSystem σ} (hout : out.AcceptsAll)
    {pairs : List Pair} {start finish : Run σ τ} {failure : Failure}
    (h : (sync rules budget pairs).run fs out start = (.error failure, finish)) :
    (Sync.walkAll rules budget pairs).run fs out start = (.error failure, finish) := by
  rcases hwalks : (Sync.walkAll rules budget pairs).run fs out start with ⟨failed | ⟨⟩, walked⟩
  · -- the walks fail
    rw [Sync.run_sync_of_error hwalks] at h
    cases h
    rfl
  · -- no command is refused, so nothing can fail behind the walks
    obtain ⟨report, closed, hclosed⟩ := Sync.exists_conclude_ok fs hout
      (Sync.batches rules walked.session) walked
    rw [Sync.run_sync_of_ok hwalks, hclosed] at h
    cases h

/-- The rows of a status add up to a plan with the given commands and the given report. -/
structure AddsUp (rows : List PairStatus) (commands : List Command) (report : Report) : Prop where
  adds : (rows.map PairStatus.adds).sum = report.adds.size
  deletes : (rows.map PairStatus.deletes).sum = report.deletes.size
  operations : (rows.map fun row => row.copies + row.removes + row.mkdirs).sum =
    commands.countP fun command => !command.isVersionControl
  conflict : rows.any PairStatus.conflict = report.conflict
  upToDate : (!rows.any PairStatus.pending) = true ↔ report.commands = 0

theorem not_any_pending_iff {rows : List PairStatus} :
    (!rows.any PairStatus.pending) = true ↔
      (rows.map PairStatus.operations).sum = 0 ∧ (rows.map PairStatus.adds).sum = 0 ∧
        (rows.map PairStatus.deletes).sum = 0 := by
  simp only [Bool.not_eq_true', List.any_eq_false, pending_row, not_not,
    List.sum_eq_zero_iff_forall_eq_nat, List.forall_mem_map]
  constructor
  · intro h
    exact ⟨fun row hrow => (h row hrow).1, fun row hrow => (h row hrow).2.1,
      fun row hrow => (h row hrow).2.2⟩
  · rintro ⟨hoperations, hadds, hdeletes⟩ row hrow
    exact ⟨hoperations row hrow, hadds row hrow, hdeletes row hrow⟩

theorem batches_eq_nil_iff {session : Session} :
    Sync.batches rules session = [] ↔ session.adds.size = 0 ∧ session.deletes.size = 0 := by
  simp only [Sync.batches, List.append_eq_nil_iff, ← Array.length_toList, List.length_eq_zero_iff]
  grind

/-- The counts of the walks add up to the plan that is made of them. -/
theorem Counts.addsUp {rows : List PairStatus} {runs : List (Run Unit (Array Command))}
    (h : Counts rows runs) {pairs : List Pair} {sink : τ} {report : Report} {finish : Run Unit τ}
    {walked : Run Unit τ}
    (hwalks : (Sync.walkAll rules budget pairs).run (.ofAnswers answers) out ⟨(), sink, {}, #[]⟩ =
      (.ok (), walked))
    (hruns : Concatenates ⟨(), sink, {}, #[]⟩ runs walked)
    (hcommands : finish.commands = walked.commands ++ Sync.batches rules walked.session)
    (hreport : report = { walked.session.report with
      commands := walked.session.emitted + (Sync.batches rules walked.session).length }) :
    AddsUp rows finish.commands report := by
  have hwalked : walked.commands = runs.flatMap Run.commands := hruns.commands
  have hadds : walked.session.adds.toList = runs.flatMap fun own => own.session.adds.toList :=
    hruns.adds
  have hdeletes : walked.session.deletes.toList =
      runs.flatMap fun own => own.session.deletes.toList := hruns.deletes
  have hconflict : walked.session.conflict = runs.any fun own => own.session.conflict :=
    hruns.conflict
  -- The walks emit nothing for the version control, and the batches nothing else.
  have hof : ∀ command ∈ walked.commands, (!command.isVersionControl) = true := by
    intro command hcommand
    have honly : Dialogue.Only Request.OfWalk (Sync.walkAll rules budget pairs) :=
      Sync.only_walkAll pairs
    have hmem := honly.commands (.ofAnswers answers) out ⟨(), sink, {}, #[]⟩ command
    rw [hwalks] at hmem
    have hnot : command.isVersionControl = false := (hmem hcommand).resolve_left List.not_mem_nil
    rw [hnot, Bool.not_false]
  have hbatches : (Sync.batches rules walked.session).countP
      (fun command => !command.isVersionControl) = 0 := by
    rw [List.countP_eq_zero]
    intro command hcommand
    rw [Sync.isVersionControl_of_mem_batches hcommand]
    exact Bool.false_ne_true
  have hemitted : walked.session.emitted = walked.commands.length := by
    have hcount := Dialogue.emitted_eq_length (.ofAnswers answers) out
      (Sync.walkAll rules budget pairs)
      (show (⟨(), sink, {}, #[]⟩ : Run Unit τ).session.emitted = 0 from rfl)
    rwa [hwalks] at hcount
  have hoperations : (rows.map PairStatus.operations).sum = walked.commands.length := by
    rw [h.operations, ← hwalked, List.countP_eq_length]
    exact hof
  have haddsSize : (rows.map PairStatus.adds).sum = walked.session.adds.size := by
    rw [h.adds, ← hadds, Array.length_toList]
  have hdeletesSize : (rows.map PairStatus.deletes).sum = walked.session.deletes.size := by
    rw [h.deletes, ← hdeletes, Array.length_toList]
  subst hreport
  refine ⟨haddsSize, hdeletesSize, ?_, h.conflict.trans hconflict.symm, ?_⟩
  · rw [hcommands, List.countP_append, hbatches, Nat.add_zero, hwalked]
    exact h.operations
  · rw [not_any_pending_iff, hoperations, haddsSize, hdeletesSize, hemitted, Nat.add_eq_zero_iff,
      List.length_eq_zero_iff (l := Sync.batches rules walked.session), batches_eq_nil_iff]

end

/-- `StatusAgrees status result finish`: a status and a synchronisation of the same pairs fail in
the walk through the same pair with the same failure, or both succeed and the status adds up to the
plan. -/
inductive StatusAgrees {τ : Type} (fs : FileSystem Unit) (out : Sink τ) (rules : Rules)
    (budget : Nat) (pairs : List Pair) (start : Run Unit τ) :
    Except (Pair × Failure) (List PairStatus) → Except Failure Report → Run Unit τ → Prop
  | failed {before later : List Pair} {pair : Pair} {failure : Failure} {mid finish : Run Unit τ}
      {rows : List PairStatus}
      (hpairs : pairs = before ++ pair :: later)
      (hrows : (statusRows (m := StateM (Run Unit τ)) (Run.reply fs out) rules budget before
        start).1 = .ok rows)
      (hbefore : (Sync.walkAll rules budget before).run fs out start = (.ok (), mid))
      (hwalk : (walk rules budget pair).run fs out (mid.happened (.logged (.reconciling pair))) =
        (.error failure, finish)) :
      StatusAgrees fs out rules budget pairs start (.error (pair, failure)) (.error failure) finish
  | succeeded {rows : List PairStatus} {report : Report} {finish : Run Unit τ}
      (h : AddsUp rows finish.commands report) :
      StatusAgrees fs out rules budget pairs start (.ok rows) (.ok report) finish

section
variable {answers : (q : Query) → Except Failure q.Answer} {rules : Rules} {budget : Nat} {τ : Type}
  {out : Sink τ}

theorem statusAgrees (hout : out.AcceptsAll) (pairs : List Pair) (sink : τ) :
    let fs := FileSystem.ofAnswers answers
    let start : Run Unit τ := ⟨(), sink, {}, #[]⟩
    let planned := (sync rules budget pairs).run fs out start
    StatusAgrees fs out rules budget pairs start
      (statusRows (m := StateM (Run Unit τ)) (Run.reply fs out) rules budget pairs start).1
      planned.1 planned.2 := by
  intro fs start planned
  rcases hplanned : planned with ⟨failure | report, finish⟩
  · -- some walk is the first one to fail
    obtain ⟨before, pair, later, mid, hpairs, hbefore, hwalk⟩ :=
      Sync.exists_walk_error (walkAll_error_of_sync_error hout hplanned)
    obtain ⟨runs, halone, -⟩ := exists_alone_of_walkAll hbefore
    obtain ⟨rows, hrows, -⟩ := halone.exists_rows
    have hfails : rowOf answers rules budget pair = .error (pair, failure) :=
      rowOf_of_walk_error hout hwalk
    have hstatus : pairs.mapM (rowOf answers rules budget) = .error (pair, failure) := by
      rw [hpairs, List.mapM_append, hrows, List.mapM_cons, hfails]
      rfl
    rw [statusRows_eq_mapM, hstatus]
    have hstatusRows := (statusRows_eq_mapM out before start).trans hrows
    exact .failed hpairs hstatusRows hbefore hwalk
  · -- all walks succeed
    obtain ⟨walked, hwalks, hcommands, -, hreport⟩ := Sync.exists_of_sync_ok hplanned
    obtain ⟨runs, halone, hruns⟩ := exists_alone_of_walkAll hwalks
    obtain ⟨rows, hrows, hcounts⟩ := halone.exists_rows
    rw [statusRows_eq_mapM, hrows]
    exact .succeeded (hcounts.addsUp hwalks hruns hcommands hreport)

/-- The plan that is kept is what a synchronisation emits, with its report. -/
theorem run_plan {σ : Type} {fs : FileSystem σ} (hout : out.AcceptsAll) (pairs : List Pair)
    (files : σ) (sink : τ) :
    let start : Run σ τ := ⟨files, sink, {}, #[]⟩
    let planned := (sync rules budget pairs).run fs out start
    ((plan rules budget pairs).run fs out start).1 =
      planned.1.map fun report => ⟨planned.2.commands.toArray, report⟩ := by
  intro start planned
  obtain ⟨heard, hgather⟩ :=
    Dialogue.exists_gather fs out hout (sync rules budget pairs) sink start
  rw [plan, Dialogue.run_bind, hgather]
  cases planned.1 <;> rfl

end

/-- **The session never influences a walk, and the status agrees with the plan.** Whatever a file
system and a sink reply, a walk from any session on gets the result that it gets from the empty
one, leaves the same file system and the same sink, does the same things after what was done
before, and adds to the session what it puts into the empty one. So over a file system that stands
still, and with a sink that takes every command, the status fails where the plan fails and adds up
to it otherwise. -/
theorem walk_ignores_session (rules : Rules) (budget : Nat) :
    (∀ {σ τ : Type} (fs : FileSystem σ) (out : Sink τ) (pair : Pair) (start : Run σ τ),
      let own := (walk rules budget pair).run fs out ⟨start.files, start.sink, {}, #[]⟩
      let whole := (walk rules budget pair).run fs out start
      whole.1 = own.1 ∧ whole.2.files = own.2.files ∧ whole.2.sink = own.2.sink ∧
        whole.2.events = start.events ++ own.2.events ∧
        whole.2.session.adds = start.session.adds ++ own.2.session.adds ∧
        whole.2.session.deletes = start.session.deletes ++ own.2.session.deletes ∧
        whole.2.session.conflict = (start.session.conflict || own.2.session.conflict)) ∧
      ∀ {τ : Type} (answers : (q : Query) → Except Failure q.Answer) (out : Sink τ),
        out.AcceptsAll → ∀ (pairs : List Pair) (sink : τ),
          let fs := FileSystem.ofAnswers answers
          let start : Run Unit τ := ⟨(), sink, {}, #[]⟩
          let planned := (sync rules budget pairs).run fs out start
          StatusAgrees fs out rules budget pairs start
              (statusRows (m := StateM (Run Unit τ)) (Run.reply fs out) rules budget pairs start).1
              planned.1 planned.2 ∧
            ((plan rules budget pairs).run fs out start).1 =
              planned.1.map fun report => ⟨planned.2.commands.toArray, report⟩ := by
  refine ⟨fun fs out pair start => ?_, fun answers out hout pairs sink => ?_⟩
  · intro own whole
    have hwhole : whole = (own.1, own.2.after start.session start.events) :=
      walk_run_after pair start
    rw [hwhole]
    exact ⟨rfl, rfl, rfl, rfl, rfl, rfl, rfl⟩
  · exact ⟨statusAgrees hout pairs sink, run_plan hout pairs () sink⟩

/-- Two pairs, one of them with a conflict. -/
theorem walk_ignores_session_swapped :
    let table : Table :=
      ⟨[(.ofString "s", .file []), (.ofString "d", .directory [[0x61]]),
        (.ofString "d/a", .file []), (.ofString "t", .directory [[0x62]]),
        (.ofString "t/b", .file [])], []⟩
    let pairs : List Pair := [⟨.ofString "s", .ofString "d"⟩, ⟨.ofString "t", .ofString "e"⟩]
    let fs := FileSystem.ofAnswers table.answer
    let start : Run Unit (Array Command) := ⟨(), #[], {}, #[]⟩
    let planned := (sync {} 20 pairs).run fs (.collect none) start
    (Sink.collect none).AcceptsAll ∧ planned.1.isOk = true ∧
      StatusAgrees fs (.collect none) {} 20 pairs start
        (statusRows (m := StateM (Run Unit (Array Command))) (Run.reply fs (.collect none)) {} 20
          pairs start).1 planned.1 planned.2 := by
  intro table pairs fs start planned
  refine ⟨Sink.acceptsAll_collect, by decide +kernel, ?_⟩
  exact ((walk_ignores_session {} 20).2 table.answer (.collect none) Sink.acceptsAll_collect pairs
    #[]).1

end TreePlan

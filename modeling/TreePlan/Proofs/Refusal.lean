import TreePlan.Proofs.Faithful
import TreePlan.Table
import Mathlib.Order.Basic

/-!
# The first path that is no text

A path that is no text ends the run, but only when the walk comes to it: what lies before it in the
order of the walk is still planned. Where the walk comes to is told without the check: `Goes` and
`Comes` follow the steps of `Walk.unchecked`, so they go on past such a path, and over any file
system they say what would be visited, in which order, and in which state of the run.

* `Goes.run_eq` and `Comes.run_eq`: while all that is visited is text, the check makes no
  difference, and at the first pair that is not text it ends the run as it is.
* `exists_first`: among the pairs that would be visited there is a first one that is not text.
-/

namespace TreePlan

variable {σ τ : Type} {fs : FileSystem σ} {out : Sink τ} {rules : Rules}

theorem Pair.isText_refused {pair : Pair} (h : ¬ pair.IsText) : pair.refused.isText = false := by
  unfold refused
  split
  · next hs => exact Bool.eq_false_iff.mpr fun hd => h ⟨hs, hd⟩
  · next hs => exact Bool.eq_false_iff.mpr hs

/-! ## Where a walk would come to -/

/-- `Goes fs out rules tasks start visited left finish`: without the check, the work on `tasks`
visits the pairs in `visited`, after which `left` is left to do. -/
inductive Goes (fs : FileSystem σ) (out : Sink τ) (rules : Rules) :
    List Task → Run σ τ → List Pair → List Task → Run σ τ → Prop
  | stay (tasks : List Task) (run : Run σ τ) : Goes fs out rules tasks run [] tasks run
  | visit {pair : Pair} {sourceGone destinationGone : Bool} {rest first left : List Task}
      {start mid finish : Run σ τ} {visited : List Pair}
      (hstep : (Walk.unchecked rules (.visit pair sourceGone destinationGone)).run fs out start =
        (.ok first, mid))
      (hrest : Goes fs out rules (first ++ rest) mid visited left finish) :
      Goes fs out rules (.visit pair sourceGone destinationGone :: rest) start (pair :: visited)
        left finish
  | resume {pair : Pair} {source destination : Kind} {actions : List Action}
      {rest first left : List Task} {start mid finish : Run σ τ} {visited : List Pair}
      (hstep : (Walk.unchecked rules (.resume pair source destination actions)).run fs out start =
        (.ok first, mid))
      (hrest : Goes fs out rules (first ++ rest) mid visited left finish) :
      Goes fs out rules (.resume pair source destination actions :: rest) start visited left finish

def Sync.entered (pair : Pair) (start : Run σ τ) : Run σ τ :=
  start.happened (.logged (.reconciling pair))

/-- `Comes fs out rules pairs start visited place finish`: without the check, the walks through
`pairs` visit the pairs in `visited`, and then come to `place`. -/
inductive Comes (fs : FileSystem σ) (out : Sink τ) (rules : Rules) :
    List Pair → Run σ τ → List Pair → Pair → Run σ τ → Prop
  | within {pair place : Pair} {pairs visited : List Pair} {sourceGone destinationGone : Bool}
      {left : List Task} {start finish : Run σ τ}
      (hwalk : Goes fs out rules [.visit pair false false] (Sync.entered pair start) visited
        (.visit place sourceGone destinationGone :: left) finish) :
      Comes fs out rules (pair :: pairs) start visited place finish
  | beyond {pair place : Pair} {pairs visited more : List Pair} {start mid finish : Run σ τ}
      (hwalk : Goes fs out rules [.visit pair false false] (Sync.entered pair start) visited [] mid)
      (hrest : Comes fs out rules pairs mid more place finish) :
      Comes fs out rules (pair :: pairs) start (visited ++ more) place finish

/-! ## With the check -/

/-- What follows a failure does not matter. -/
theorem Dialogue.run_bind_error {α β : Type} {d : Dialogue α} {f : α → Dialogue β}
    {start : Run σ τ} {failure : Failure} (h : (d.run fs out start).1 = .error failure) :
    ((d >>= f).run fs out start).1 = .error failure := by
  rw [Dialogue.run_bind]
  rcases hd : d.run fs out start with ⟨other | value, mid⟩
  · rw [hd] at h
    cases h
    rfl
  · rw [hd] at h
    cases h

/-- While all that is visited is text the check makes no difference. -/
theorem Goes.run_eq {tasks left : List Task} {visited : List Pair} {start finish : Run σ τ}
    (h : Goes fs out rules tasks start visited left finish)
    (htext : ∀ pair ∈ visited, pair.IsText) :
    ∃ cost, (∀ budget, (Walk.workOff rules (budget + cost) tasks).run fs out start =
        (Walk.workOff rules budget left).run fs out finish) ∧
      ∀ budget < cost,
        ((Walk.workOff rules budget tasks).run fs out start).1 = .error .exhausted := by
  -- One step more costs one more, whichever task it does.
  have hcons : ∀ {t : Task} {rest first left : List Task} {start mid finish : Run σ τ},
      (Walk.step rules t).run fs out start = (.ok first, mid) →
      (∃ cost, (∀ budget, (Walk.workOff rules (budget + cost) (first ++ rest)).run fs out mid =
          (Walk.workOff rules budget left).run fs out finish) ∧
        ∀ budget < cost,
          ((Walk.workOff rules budget (first ++ rest)).run fs out mid).1 = .error .exhausted) →
      ∃ cost, (∀ budget, (Walk.workOff rules (budget + cost) (t :: rest)).run fs out start =
          (Walk.workOff rules budget left).run fs out finish) ∧
        ∀ budget < cost,
          ((Walk.workOff rules budget (t :: rest)).run fs out start).1 = .error .exhausted := by
    rintro t rest first left start mid finish hstep ⟨cost, hgoes, hends⟩
    have hsucc : ∀ budget, (Walk.workOff rules (budget + 1) (t :: rest)).run fs out start =
        (Walk.workOff rules budget (first ++ rest)).run fs out mid := by
      intro budget
      rw [Walk.workOff, Dialogue.run_bind, hstep]
    refine ⟨cost + 1, fun budget => ?_, fun budget hlt => ?_⟩
    · rw [← Nat.add_assoc, hsucc, hgoes]
    · cases budget with
      | zero => rfl
      | succ budget =>
          rw [hsucc]
          exact hends budget (Nat.lt_of_succ_lt_succ hlt)
  induction h with
  | stay tasks run => exact ⟨0, fun _ => rfl, fun _ hlt => absurd hlt (Nat.not_lt_zero _)⟩
  | visit hstep _ ih =>
      obtain ⟨hpair, hvisited⟩ := List.forall_mem_cons.mp htext
      exact hcons (Walk.step_visit hpair _ _ ▸ hstep) (ih hvisited)
  | resume hstep _ ih => exact hcons hstep (ih htext)

/-- **At the first pair that is not text the walks end**, with its first path that is not, in the
state in which they have come to it; with less to spend they do not come so far. -/
theorem Comes.run_eq {pairs visited : List Pair} {place : Pair} {start finish : Run σ τ}
    (h : Comes fs out rules pairs start visited place finish)
    (htext : ∀ pair ∈ visited, pair.IsText) (hplace : ¬ place.IsText) :
    ∃ enough, ∀ budget,
      (enough ≤ budget → (Sync.walkAll rules budget pairs).run fs out start =
        (.error (.notText place.refused), finish)) ∧
      (budget < enough →
        ((Sync.walkAll rules budget pairs).run fs out start).1 = .error .exhausted) := by
  have henter : ∀ (budget : Nat) (pair : Pair) (pairs : List Pair) (start : Run σ τ),
      (Sync.walkAll rules budget (pair :: pairs)).run fs out start =
        ((walk rules budget pair >>= fun _ => Sync.walkAll rules budget pairs).run fs out
          (Sync.entered pair start)) := by
    intro budget pair pairs start
    rw [Sync.walkAll, Dialogue.run_bind, Dialogue.run_log]
    rfl
  induction h with
  | @within pair place pairs visited sourceGone destinationGone left start finish hwalk =>
      obtain ⟨cost, hgoes, hends⟩ := hwalk.run_eq htext
      refine ⟨cost + 1, fun budget => ⟨fun hle => ?_, fun hlt => ?_⟩⟩
      · -- enough for the way there and for the refusal
        obtain ⟨more, rfl⟩ := Nat.exists_eq_add_of_le' hle
        have hrefused : (Walk.workOff rules (more + 1)
            (.visit place sourceGone destinationGone :: left)).run fs out finish =
              (.error (.notText place.refused), finish) := by
          rw [Walk.workOff, Walk.step_refused hplace]
          rfl
        rw [henter, Dialogue.run_bind, walk, Nat.add_comm cost, ← Nat.add_assoc, hgoes, hrefused]
      · -- the budget ends on the way
        have hwalks : ((walk rules budget pair).run fs out (Sync.entered pair start)).1 =
            .error .exhausted := by
          rcases Nat.lt_succ_iff_lt_or_eq.mp hlt with hless | rfl
          · exact hends budget hless
          · have hgone := hgoes 0
            rw [Nat.zero_add] at hgone
            rw [walk, hgone]
            rfl
        rw [henter]
        exact Dialogue.run_bind_error hwalks
  | @beyond pair place pairs visited more start mid finish hwalk _ ih =>
      obtain ⟨hvisited, hmore⟩ := List.forall_mem_append.mp htext
      obtain ⟨cost, hgoes, hends⟩ := hwalk.run_eq hvisited
      obtain ⟨enough, hothers⟩ := ih hmore hplace
      have hpast : ∀ budget, cost ≤ budget →
          (Sync.walkAll rules budget (pair :: pairs)).run fs out start =
            (Sync.walkAll rules budget pairs).run fs out mid := by
        intro budget hle
        obtain ⟨left, rfl⟩ := Nat.exists_eq_add_of_le' hle
        have hwalks : (walk rules (left + cost) pair).run fs out (Sync.entered pair start) =
            (.ok (), mid) := (hgoes left).trans (by cases left <;> rfl)
        rw [henter, Dialogue.run_bind, hwalks]
      refine ⟨max cost enough, fun budget => ⟨fun hle => ?_, fun hlt => ?_⟩⟩
      · -- this pair is left behind
        obtain ⟨hcost, henough⟩ := Nat.max_le.mp hle
        rw [hpast budget hcost]
        exact (hothers budget).1 henough
      · rcases Nat.lt_or_ge budget cost with hless | hle
        · -- the budget ends within this pair
          rw [henter]
          exact Dialogue.run_bind_error (hends budget hless)
        · -- or within the others
          rw [hpast budget hle]
          exact (hothers budget).2 (by omega)

/-! ## The first pair that is not text -/

theorem Goes.exists_first {tasks left : List Task} {visited : List Pair} {start finish : Run σ τ}
    (h : Goes fs out rules tasks start visited left finish) :
    (∀ pair ∈ visited, pair.IsText) ∨
      ∃ before place sourceGone destinationGone rest mid,
        Goes fs out rules tasks start before (.visit place sourceGone destinationGone :: rest) mid ∧
          (∀ pair ∈ before, pair.IsText) ∧ ¬ place.IsText := by
  induction h with
  | stay => exact .inl (List.forall_mem_nil _)
  | @visit pair _ _ rest _ _ start _ _ _ hstep _ ih =>
      by_cases hpair : pair.IsText
      · rcases ih with htext | ⟨before, place, _, _, _, _, hgoes, hbefore, hplace⟩
        · exact .inl (List.forall_mem_cons.mpr ⟨hpair, htext⟩)
        · have hall := List.forall_mem_cons.mpr ⟨hpair, hbefore⟩
          exact .inr ⟨_, _, _, _, _, _, .visit hstep hgoes, hall, hplace⟩
      · -- the pair itself is no text
        exact .inr ⟨[], pair, _, _, rest, start, .stay _ _, List.forall_mem_nil _, hpair⟩
  | resume hstep _ ih =>
      rcases ih with htext | ⟨before, place, _, _, _, _, hgoes, hbefore, hplace⟩
      · exact .inl htext
      · exact .inr ⟨_, _, _, _, _, _, .resume hstep hgoes, hbefore, hplace⟩

theorem Comes.exists_first {pairs visited : List Pair} {place : Pair} {start finish : Run σ τ}
    (h : Comes fs out rules pairs start visited place finish) (hplace : ¬ place.IsText) :
    ∃ before first mid, Comes fs out rules pairs start before first mid ∧
      (∀ pair ∈ before, pair.IsText) ∧ ¬ first.IsText := by
  induction h with
  | within hwalk =>
      rcases hwalk.exists_first with htext | ⟨_, _, _, _, _, _, hgoes, hbefore, hfirst⟩
      · exact ⟨_, _, _, .within hwalk, htext, hplace⟩
      · exact ⟨_, _, _, .within hgoes, hbefore, hfirst⟩
  | beyond hwalk _ ih =>
      rcases hwalk.exists_first with htext | ⟨_, _, _, _, _, _, hgoes, hbefore, hfirst⟩
      · obtain ⟨before, first, mid, hcomes, hbefore, hfirst⟩ := ih hplace
        exact ⟨_, _, _, .beyond hwalk hcomes, List.forall_mem_append.mpr ⟨htext, hbefore⟩, hfirst⟩
      · exact ⟨_, _, _, .within hgoes, hbefore, hfirst⟩

/-! ## Synchronisations -/

theorem isText_of_mem_events {budget : Nat} {pairs : List Pair} {files : σ} {sink : τ}
    {result : Except Failure Unit} {finish : Run σ τ}
    (hrun : (Sync.walkAll rules budget pairs).run fs out ⟨files, sink, {}, #[]⟩ =
      (result, finish)) :
    (∀ query ∈ finish.queries, ∀ path ∈ query.paths, path.isText = true) ∧
      ∀ command ∈ finish.commands, command.IsText := by
  have hevents := (makes_walkAll rules budget pairs).only.events fs out
    ⟨files, sink, {}, #[]⟩
  rw [hrun] at hevents
  constructor
  · intro query hquery
    exact (hevents _ (mem_queries_iff.mp hquery)).resolve_left List.not_mem_nil
  · intro command hcommand
    exact (hevents _ (mem_commands_iff.mp hcommand)).resolve_left List.not_mem_nil

/-- **Only text comes out**, whatever the file system answers and however a synchronisation ends;
and the first pair that is not text ends it. -/
theorem only_text_comes_out (fs : FileSystem σ) (out : Sink τ) (rules : Rules) (pairs : List Pair)
    (files : σ) (sink : τ) :
    (∀ budget,
      let outcome := (sync rules budget pairs).run fs out ⟨files, sink, {}, #[]⟩
      let watched := (sync rules budget pairs).run fs out.watch ⟨files, ([], sink), {}, #[]⟩
      outcome = (watched.1, watched.2.unwatch) ∧
        -- Every command that is handed over is text, and loses nothing.
        (∀ command ∈ watched.2.sink.1, command.IsText ∧
          command.words.map Bytes.ofString =
            command.options.map Bytes.ofString ++ command.paths.map Path.bytes ∧
          command.encode?.isSome = true ∧ command.encodeWithLine?.isSome = true) ∧
        (∀ query ∈ outcome.2.queries, ∀ path ∈ query.paths, path.isText = true) ∧
        ∀ report, outcome.1 = .ok report → report.IsText ∧ report.encode?.isSome = true) ∧
    ∀ visited place finish, Comes fs out rules pairs ⟨files, sink, {}, #[]⟩ visited place finish →
      ¬ place.IsText →
        -- No pair that would be visited can be other than text if there is to be a result.
        (∀ budget, ∃ failure,
          ((sync rules budget pairs).run fs out ⟨files, sink, {}, #[]⟩).1 = .error failure) ∧
        -- The first one ends the run, before anything was said about its path.
        ((∀ pair ∈ visited, pair.IsText) →
          (∃ enough, ∀ budget, enough ≤ budget →
            (sync rules budget pairs).run fs out ⟨files, sink, {}, #[]⟩ =
              (.error (.notText place.refused), finish)) ∧
          place.refused.isText = false ∧
          (∀ query ∈ finish.queries, place.refused ∉ query.paths) ∧
          ∀ command ∈ finish.commands, place.refused ∉ command.paths) := by
  refine ⟨fun budget => ?_, fun visited place finish hcomes hplace => ⟨fun budget => ?_, ?_⟩⟩
  · intro outcome watched
    have hwatch : outcome = (watched.1, watched.2.unwatch) :=
      Dialogue.run_watch (sync rules budget pairs) ⟨files, ([], sink), {}, #[]⟩
    have hstart := Run.faithful_start files sink
    have hfaithful : watched.2.Faithful := faithful_sync budget pairs hstart
    refine ⟨hwatch, fun command hcommand => ?_, ?_, fun report hok => ?_⟩
    · have htext := hfaithful.handed command hcommand
      exact ⟨htext, Command.words_bytes htext, Command.isSome_encode htext⟩
    · rw [hwatch]
      exact hfaithful.queries
    · rw [hwatch] at hok
      have htext : report.IsText := isText_report hstart (Prod.ext hok rfl)
      exact ⟨htext, Report.isSome_encode htext⟩
  · obtain ⟨before, first, mid, hfirst, hbefore, hnot⟩ := hcomes.exists_first hplace
    obtain ⟨enough, hwalks⟩ := hfirst.run_eq hbefore hnot
    rcases Nat.lt_or_ge budget enough with hlt | hle
    · -- the budget ends first
      exact ⟨_, Dialogue.run_bind_error ((hwalks budget).2 hlt)⟩
    · -- the refusal comes first
      exact ⟨_, Dialogue.run_bind_error (congrArg Prod.fst ((hwalks budget).1 hle))⟩
  · intro htext
    obtain ⟨enough, hwalks⟩ := hcomes.run_eq htext hplace
    have hrefused := Pair.isText_refused hplace
    obtain ⟨hqueries, hcommands⟩ := isText_of_mem_events ((hwalks enough).1 (Nat.le_refl enough))
    refine ⟨⟨enough, fun budget hle => ?_⟩, hrefused, fun query hquery hmem => ?_,
      fun command hcommand hmem => ?_⟩
    · rw [sync, Dialogue.run_bind, (hwalks budget).1 hle]
    · exact Bool.false_ne_true (hrefused.symm.trans (hqueries query hquery _ hmem))
    · exact Bool.false_ne_true (hrefused.symm.trans (hcommands command hcommand _ hmem))

/-- A name that is no text in a directory that is to be made: the directory is still planned. -/
theorem only_text_comes_out_mangled :
    let table : Table := ⟨[(.ofString "s", .directory [[0x61]]),
      (.ofString "s/a", .directory [[0xFF]])], []⟩
    let pair : Pair := ⟨.ofString "s", .ofString "d"⟩
    let start : Run Unit (Array Command) := ⟨(), #[], {}, #[]⟩
    ∃ finish, Comes table.fileSystem (.collect none) {} [pair] start [pair, pair.child [0x61]]
        ((pair.child [0x61]).child [0xFF]) finish ∧
      finish.commands = [.mkdir (.ofString "d"), .mkdir (.ofString "d/a")] ∧
      ∃ enough, ∀ budget, enough ≤ budget →
        (sync {} budget [pair]).run table.fileSystem (.collect none) start =
          (.error (.notText ((pair.child [0x61]).child [0xFF]).source), finish) := by
  intro table pair start
  let inner := pair.child [0x61]
  let entered := Sync.entered pair start
  let made := ((Walk.unchecked {} (.visit pair false false)).run table.fileSystem (.collect none)
    entered).2
  have hroot : ((Walk.unchecked {} (.visit pair false false)).run table.fileSystem (.collect none)
      entered).1 = .ok [.visit inner false true, .resume pair .directory .missing []] := by
    decide +kernel
  have hinner : ((Walk.unchecked {} (.visit inner false true)).run table.fileSystem (.collect none)
      made).1 =
        .ok [.visit (inner.child [0xFF]) false true, .resume inner .directory .missing []] := by
    decide +kernel
  have hcomes : Comes table.fileSystem (.collect none) {} [pair] start [pair, inner]
      (inner.child [0xFF]) _ :=
    .within (.visit (Prod.ext hroot rfl) (.visit (Prod.ext hinner rfl) (.stay _ _)))
  obtain ⟨-, hrefusals⟩ :=
    only_text_comes_out table.fileSystem (.collect none) {} [pair] () #[]
  obtain ⟨-, hends⟩ := hrefusals _ _ _ hcomes (by decide +kernel)
  obtain ⟨⟨enough, hbudget⟩, -⟩ := hends (by decide +kernel)
  have hsource : (inner.child [0xFF]).refused = (inner.child [0xFF]).source := by decide +kernel
  exact ⟨_, hcomes, by decide +kernel, enough, hsource ▸ hbudget⟩

end TreePlan

import TreePlan.Proofs.Bookkeeping
import TreePlan.Proofs.Course.Place
import TreePlan.Proofs.Events
import TreePlan.Proofs.Session
import TreePlan.Proofs.Tour
import TreePlan.Proofs.Truncation

/-!
# The visits of a synchronisation

What a synchronisation does to files it does in one of its walks, and each walk is the one that it
would be by itself (`Sync.exists_within`). So what is known of the course of a walk is known of the
visits in the log of a whole synchronisation, whether it fails or not:

* `exists_visited_of_removed`: a path is only removed as the destination of a visit that found
  something else, or nothing, at the source;
* `Sync.visits_of_ok`: a synchronisation that succeeds has visited its pairs, and the entries of
  every directory that it visited.
-/

namespace TreePlan

variable {σ τ : Type} {fs : FileSystem σ} {out : Sink τ} {rules : Rules} {budget : Nat}

theorem Dialogue.events_prefix_bind {α β : Type} (d : Dialogue α) (f : α → Dialogue β)
    (start : Run σ τ) :
    (d.run fs out start).2.events.toList <+: ((d >>= f).run fs out start).2.events.toList := by
  rw [Dialogue.run_bind]
  rcases d.run fs out start with ⟨failure | value, mid⟩
  · exact List.prefix_rfl
  · exact Dialogue.events_prefix_run fs out (f value) mid

theorem Dialogue.events_subset {α : Type} {d : Dialogue α} {start finish : Run σ τ}
    {result : Except Failure α} (hrun : d.run fs out start = (result, finish)) :
    start.events.toList ⊆ finish.events.toList := by
  have hgrows := Dialogue.events_prefix_run fs out d start
  rw [hrun] at hgrows
  exact hgrows.subset

/-! ## The walks of a synchronisation -/

/-- The events of walks: all but those that a synchronisation adds around them. -/
def Event.OfWalk : Event → Prop
  | .asked _ => True
  | .emitted command => command.isVersionControl = false
  | .logged (.visiting ..) | .logged (.typeConflict ..) => True
  | .logged (.reconciling _) | .logged (.finished _) => False

/-- A walk through one of the pairs, by itself, that is part of a run. -/
structure Within (fs : FileSystem σ) (out : Sink τ) (rules : Rules) (budget : Nat)
    (pairs : List Pair) (finish : Run σ τ) (pair : Pair) (own : Run σ τ) : Prop where
  mem : pair ∈ pairs
  isRun : ∃ files sink, own = ((walk rules budget pair).run fs out ⟨files, sink, {}, #[]⟩).2
  subset : own.events.toList ⊆ finish.events.toList

/-- A walk of a synchronisation has a course, wherever it was broken off. -/
theorem Within.exists_course {pairs : List Pair} {finish own : Run σ τ} {pair : Pair}
    (h : Within fs out rules budget pairs finish pair own) :
    ∃ steps ended, Course fs.Gives rules pair false false steps ended ∧ Follows pair steps own := by
  obtain ⟨files, sink, rfl⟩ := h.isRun
  obtain ⟨steps, ended, hcourse, hfollows, -⟩ :=
    exists_course_walk fs out rules budget pair files sink
  exact ⟨steps, ended, hcourse, hfollows⟩

namespace Sync

/-- What happened in several walks happened in one of them. -/
theorem exists_within_walkAll {pairs : List Pair} {start finish : Run σ τ}
    {result : Except Failure Unit} {event : Event} (hof : event.OfWalk)
    (hrun : (walkAll rules budget pairs).run fs out start = (result, finish))
    (hevent : event ∈ finish.events.toList) :
    event ∈ start.events.toList ∨
      ∃ pair own, Within fs out rules budget pairs finish pair own ∧ event ∈ own.events.toList := by
  induction pairs generalizing start with
  | nil =>
      cases hrun
      exact .inl hevent
  | cons pair pairs ih =>
      rw [walkAll, Dialogue.run_bind, Dialogue.run_log] at hrun
      simp only [Dialogue.run_bind] at hrun
      let logged := start.happened (.logged (.reconciling pair))
      let own := ((walk rules budget pair).run fs out ⟨logged.files, logged.sink, {}, #[]⟩).2
      have hafter : ((walk rules budget pair).run fs out logged).2 =
          own.after logged.session logged.events := congrArg Prod.snd (walk_run_after pair logged)
      -- The events of the walk are its own, behind those that were there.
      have hmid : ∀ e, e ∈ ((walk rules budget pair).run fs out logged).2.events.toList ↔
          e ∈ start.events.toList ∨ e = .logged (.reconciling pair) ∨ e ∈ own.events.toList := by
        intro e
        rw [hafter]
        simp [Run.after, logged, Run.happened]
      have hfirst : ∀ {mid : Run σ τ}, ((walk rules budget pair).run fs out logged).2 = mid →
          mid.events.toList ⊆ finish.events.toList → event ∈ mid.events.toList →
            event ∈ start.events.toList ∨ ∃ other own,
              Within fs out rules budget (pair :: pairs) finish other own ∧
                event ∈ own.events.toList := by
        rintro mid rfl hsub hmem
        rcases (hmid event).mp hmem with hstart | rfl | hown
        · exact .inl hstart
        · exact absurd hof not_false
        · refine .inr ⟨pair, own, ⟨List.mem_cons_self, ⟨_, _, rfl⟩, fun e he => ?_⟩, hown⟩
          exact hsub ((hmid e).mpr (.inr (.inr he)))
      rcases hwalk : (walk rules budget pair).run fs out logged with ⟨failure | ⟨⟩, mid⟩
      · -- the walk fails, and is the last one
        rw [hwalk] at hrun
        cases hrun
        exact hfirst (congrArg Prod.snd hwalk) (List.Subset.refl _) hevent
      · -- the others go on from `mid`
        rw [hwalk] at hrun
        replace hrun : (walkAll rules budget pairs).run fs out mid = (result, finish) := hrun
        rcases ih hrun with hmem | ⟨other, its, hwithin, hmem⟩
        · exact hfirst (congrArg Prod.snd hwalk) (Dialogue.events_subset hrun) hmem
        · have hpairs : other ∈ pair :: pairs := List.mem_cons_of_mem _ hwithin.mem
          exact .inr ⟨other, its, ⟨hpairs, hwithin.isRun, hwithin.subset⟩, hmem⟩

/-- The requests whose events are none of a walk. -/
def Closes (r : Request) : Prop := ∀ event : Event, event.request = r → ¬ event.OfWalk

theorem closes_emit {command : Command} (h : command.isVersionControl = true) :
    Closes (.emit command) := by
  rintro (query | emitted | record) hrequest hof
  · cases hrequest
  · cases hrequest
    exact Bool.false_ne_true (hof.symm.trans h)
  · cases hrequest

/-- What a synchronisation does after its walks. -/
def close (rules : Rules) : Dialogue Report := do
  let gathered ← Dialogue.review
  emitAll (batches rules gathered)
  let last ← Dialogue.review
  Dialogue.log (.finished last.report)
  return last.report

theorem sync_eq (pairs : List Pair) :
    sync rules budget pairs = walkAll rules budget pairs >>= fun _ => close rules := rfl

theorem only_close (rules : Rules) : Dialogue.Only Closes (close rules) := by
  have hreview : Closes .review := by
    rintro (query | emitted | record) hrequest <;> cases hrequest
  have hlog : ∀ report, Closes (.log (.finished report)) := by
    rintro report (query | emitted | record) hrequest hof
    · cases hrequest
    · cases hrequest
    · cases hrequest
      exact hof
  refine Dialogue.Only.bind (.request hreview) fun gathered => ?_
  have hemit : ∀ command ∈ batches rules gathered, Closes (.emit command) :=
    fun command hcommand => closes_emit (isVersionControl_of_mem_batches hcommand)
  exact only_conclude hemit hreview hlog

theorem exists_within {pairs : List Pair} {files : σ} {sink : τ} {finish : Run σ τ}
    {result : Except Failure Report} {event : Event} (hof : event.OfWalk)
    (hrun : (sync rules budget pairs).run fs out ⟨files, sink, {}, #[]⟩ = (result, finish))
    (hevent : event ∈ finish.events.toList) :
    ∃ pair own, Within fs out rules budget pairs finish pair own ∧ event ∈ own.events.toList := by
  rw [sync_eq, Dialogue.run_bind] at hrun
  rcases hwalked : (walkAll rules budget pairs).run fs out ⟨files, sink, {}, #[]⟩ with
    ⟨failure | ⟨⟩, walked⟩
  · -- a walk failed, so nothing comes behind the walks
    rw [hwalked] at hrun
    cases hrun
    exact (exists_within_walkAll hof hwalked hevent).resolve_left List.not_mem_nil
  · -- what comes behind the walks is not of a walk
    rw [hwalked] at hrun
    replace hrun : (close rules).run fs out walked = (result, finish) := hrun
    have hmem := (only_close rules).mem_start hrun hevent fun h => h event rfl hof
    obtain ⟨pair, own, hwithin, hown⟩ :=
      (exists_within_walkAll hof hwalked hmem).resolve_left List.not_mem_nil
    have hsub := List.Subset.trans hwithin.subset (Dialogue.events_subset hrun)
    exact ⟨pair, own, ⟨hwithin.mem, hwithin.isRun, hsub⟩, hown⟩

/-- What happens in the first walk happens in the synchronisation. -/
theorem walk_events_subset (pair : Pair) (pairs : List Pair) (start : Run σ τ) :
    ((walk rules budget pair).run fs out
      (start.happened (.logged (.reconciling pair)))).2.events.toList ⊆
        ((sync rules budget (pair :: pairs)).run fs out start).2.events.toList := by
  rw [sync_eq]
  refine List.Subset.trans ?_ (Dialogue.events_prefix_bind _ _ start).subset
  rw [walkAll, Dialogue.run_bind, Dialogue.run_log]
  exact (Dialogue.events_prefix_bind _ _ _).subset

theorem within_head (pair : Pair) (pairs : List Pair) (files : σ) (sink : τ) :
    Within fs out rules budget (pair :: pairs)
      ((sync rules budget (pair :: pairs)).run fs out ⟨files, sink, {}, #[]⟩).2 pair
      ((walk rules budget pair).run fs out ⟨files, sink, {}, #[]⟩).2 where
  mem := List.mem_cons_self
  isRun := ⟨files, sink, rfl⟩
  subset := by
    let logged : Run σ τ := ⟨files, sink, {}, #[.logged (.reconciling pair)]⟩
    have hafter : ((walk rules budget pair).run fs out logged).2 =
        ((walk rules budget pair).run fs out ⟨files, sink, {}, #[]⟩).2.after {} logged.events :=
      congrArg Prod.snd (walk_run_after pair logged)
    refine List.Subset.trans ?_ (walk_events_subset pair pairs _)
    show _ ⊆ ((walk rules budget pair).run fs out logged).2.events.toList
    rw [hafter]
    simp [Run.after]

end Sync

/-! ## What is removed -/

/-- A walk by itself removes the destination of a visit. -/
theorem exists_visited_of_removed {pair : Pair} {files : σ} {sink : τ} {path : Path}
    {recursive : Bool} {own : Run σ τ}
    (hown : own = ((walk rules budget pair).run fs out ⟨files, sink, {}, #[]⟩).2)
    (hremoved : .emitted (.remove path recursive) ∈ own.events.toList) :
    ∃ source destination place, .logged (.visiting source destination place) ∈ own.events.toList ∧
      place.destination = path ∧ source ≠ destination ∧ destination ≠ .missing := by
  have htidy : Tidy none [.visit pair false false] := fun _ => trivial
  have hkeeps : Keeps fs out none (walk rules budget pair) _ := keeps_workOff fs out budget htidy
  obtain ⟨events, hmirrors, -⟩ := hkeeps ⟨files, sink, {}, #[]⟩
  replace hmirrors : Mirrors none ⟨files, sink, {}, #[]⟩ own events := hown ▸ hmirrors
  obtain ⟨steps, ended, hcourse, hfollows, -⟩ :=
    exists_course_walk fs out rules budget pair files sink
  rw [← hown] at hfollows
  -- What is removed is queued for deletion, and that is what the course of the walk tells of.
  have hevents : own.events.toList = events := hmirrors.events_eq
  have hqueued : path ∈ own.session.deletes.toList := by
    have hdeletes : own.session.deletes.toList = events.filterMap Event.removed? :=
      hmirrors.deletes_eq
    rw [hdeletes, List.mem_filterMap]
    exact ⟨_, hevents ▸ hremoved, rfl⟩
  rw [hfollows.deletes, List.mem_map] at hqueued
  obtain ⟨rel, hrel, rfl⟩ := hqueued
  obtain ⟨source, destination, hvisited, hmem, -⟩ :=
    hcourse.exists_visited_of_took (mem_takenAt.mp hrel)
  obtain ⟨hpresent, hdiffers⟩ := (queueDelete_mem_policy_iff source destination).mp hmem
  refine ⟨source, destination, pair.below rel, ?_, rfl, hdiffers, hpresent⟩
  exact mem_records_iff.mp ((hfollows.visits _ _ _).mpr ⟨rel, hvisited, rfl⟩)

/-! ## What a synchronisation cannot leave out -/

section
variable {answers : (q : Query) → Except Failure q.Answer}

/-- All children of a place with the given kinds were visited, and what was found at them was asked,
unless it is known without asking. -/
def ChildrenVisited (answers : (q : Query) → Except Failure q.Answer) (rules : Rules)
    (finish : Run Unit τ) (source destination : Kind) (place : Pair) : Prop :=
  ∀ name ∈ childrenFound answers rules place source destination, ∃ source' destination',
    .logged (.visiting source' destination' (place.child name)) ∈ finish.events.toList ∧
      Found (fun query answer => answers query = .ok answer) (source != .directory)
        (place.child name).source source' ∧
      Found (fun query answer => answers query = .ok answer) (destination != .directory)
        (place.child name).destination destination'

/-- What is listed at a side where a directory was found is visited, and asked about there. -/
theorem ChildrenVisited.exists_visit {finish : Run Unit τ} {source destination : Kind}
    {place : Pair} (h : ChildrenVisited answers rules finish source destination place) (side : Side)
    (hdirectory : side.pick source destination = .directory) {listing : List Name}
    (hlisting : answers (.list (place.on side)) = .ok listing) {name : Name}
    (hname : name ∈ listing) (hvisible : name ∉ rules.metadataNames) :
    ∃ source' destination',
      .logged (.visiting source' destination' (place.child name)) ∈ finish.events.toList ∧
        answers (.classify ((place.on side).child name)) =
          .ok (side.pick source' destination') := by
  have hfound : name ∈ namesFound answers (side.pick source destination) (place.on side) := by
    rw [namesFound, if_pos hdirectory, hlisting]
    exact hname
  have hchild : name ∈ childrenFound answers rules place source destination := by
    refine Walk.mem_visible.mpr ⟨?_, hvisible⟩
    cases side with
    | source => exact List.mem_append_left _ hfound
    | destination => exact List.mem_append_right _ hfound
  obtain ⟨source', destination', hlogged, hs, hd⟩ := h name hchild
  refine ⟨source', destination', hlogged, ?_⟩
  cases side with
  | source =>
      rw [show source = .directory from hdirectory] at hs
      exact hs
  | destination =>
      rw [show destination = .directory from hdirectory] at hd
      exact hd

namespace Sync

theorem tours_walkAll (answers : (q : Query) → Except Failure q.Answer) (out : Sink τ)
    (rules : Rules) (budget : Nat) (pairs : List Pair) :
    Dialogue.Tours answers out
      (pairs.flatMap fun pair =>
        (tour answers rules budget pair false false).map (Stop.record pair))
      (fun _ => ∀ pair ∈ pairs, Completes answers rules budget pair false false)
      (walkAll rules budget pairs) := by
  induction pairs with
  | nil => exact Dialogue.tours_done (List.forall_mem_nil _)
  | cons pair pairs ih =>
      have hlog : Dialogue.Only (fun r => r = .log (.reconciling pair))
          (Dialogue.log (.reconciling pair)) := .request rfl
      have hnot : ∀ source destination place,
          Request.log (.visiting source destination place) ≠ .log (.reconciling pair) := by
        intro source destination place heq
        cases heq
      rw [walkAll, List.flatMap_cons]
      refine (hlog.tours hnot fun _ _ _ _ => trivial).bind fun _ _ => ?_
      refine (tours_walk (Nat.le_refl budget) pair).bind fun _ hpair => ih.mono fun _ hpairs => ?_
      exact List.forall_mem_cons.mpr ⟨hpair, hpairs⟩

/-- **The visits of a synchronisation are the tours of its pairs**, one after another. -/
theorem tours_sync (answers : (q : Query) → Except Failure q.Answer) (out : Sink τ)
    (rules : Rules) (budget : Nat) (pairs : List Pair) :
    Dialogue.Tours answers out
      (pairs.flatMap fun pair =>
        (tour answers rules budget pair false false).map (Stop.record pair))
      (fun _ => ∀ pair ∈ pairs, Completes answers rules budget pair false false)
      (sync rules budget pairs) := by
  have hclose : Dialogue.Tours answers out [] (fun _ => True) (close rules) :=
    (only_close rules).tours (fun _ _ _ h => h (.logged (.visiting ..)) rfl trivial)
      fun _ _ _ _ => trivial
  have hboth := (tours_walkAll answers out rules budget pairs).bind fun _ hpairs =>
    hclose.mono fun _ _ => hpairs
  rwa [List.append_nil] at hboth

/-- **A synchronisation that succeeds has visited everything**: all its pairs, and with every place
that it visited the children. -/
theorem visits_of_ok {pairs : List Pair} {sink : τ} {report : Report} {finish : Run Unit τ}
    (h : (sync rules budget pairs).run (.ofAnswers answers) out ⟨(), sink, {}, #[]⟩ =
      (.ok report, finish)) :
    (∀ pair ∈ pairs, ∃ source destination,
      .logged (.visiting source destination pair) ∈ finish.events.toList) ∧
    ∀ source destination place,
      .logged (.visiting source destination place) ∈ finish.events.toList →
        ChildrenVisited answers rules finish source destination place := by
  obtain ⟨hcompletes, hvisits⟩ := tours_sync answers out rules budget pairs _ _ _ h
  have hlogged : ∀ pair ∈ pairs, ∀ stop ∈ tour answers rules budget pair false false,
      .logged (stop.record pair) ∈ finish.events.toList := by
    intro pair hpair stop hstop
    refine mem_visits_iff.mp ?_
    rw [hvisits]
    exact List.mem_append_right _
      (List.mem_flatMap.mpr ⟨pair, hpair, List.mem_map_of_mem hstop⟩)
  constructor
  · intro pair hpair
    have hroot := hcompletes pair hpair
    cases budget with
    | zero => exact hroot.elim
    | succ budget => exact ⟨_, _, hlogged pair hpair _ (mem_tour_succ.mpr (.inl rfl))⟩
  · intro source destination place hmem name hname
    rw [← mem_visits_iff, hvisits] at hmem
    obtain ⟨pair, hpair, hrecord⟩ := List.mem_flatMap.mp ((List.mem_append.mp hmem).resolve_left
      List.not_mem_nil)
    obtain ⟨stop, hstop, heq⟩ := List.mem_map.mp hrecord
    cases heq
    obtain ⟨child, hchild, hrel, hfound⟩ := exists_child (hcompletes pair hpair) hstop hname
    have hplace : pair.below child.rel = (pair.below stop.rel).child name := by
      rw [hrel, Pair.below_concat]
    rw [hplace] at hfound
    exact ⟨child.source, child.destination, hplace ▸ hlogged pair hpair child hchild, hfound⟩

end Sync

end

end TreePlan

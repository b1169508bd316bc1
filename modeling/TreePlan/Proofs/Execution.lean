import TreePlan.Proofs.Batches
import TreePlan.Proofs.Execution.Pair

/-!
# Carrying out a plan

A successful `sync` hands the sink the commands for each pair, one pair after another, and
then commands for the version control. Carried out in this order, on the tree that was
looked at when the plan was made, no command fails, and every destination becomes like its
source (`sync_plan_executes`).

For this the pairs must not get in each other's way (`Volume.Admits`): the destinations have
to be apart from each other and from all sources, so that what is done for one pair leaves
the other pairs as they were.
-/

namespace TreePlan

/-- The pairs do not get in each other's way: every destination is apart from the other
destinations and from all sources, and there is a directory to hold it. -/
structure Volume.Admits (volume : Volume) (pairs : List Pair) : Prop where
  covers : ∀ pair ∈ pairs, volume.CoversPair pair
  destinations : pairs.Pairwise fun a b =>
    Apart (volume.locate a.destination) (volume.locate b.destination)
  sources : ∀ a ∈ pairs, ∀ b ∈ pairs, Apart (volume.locate a.destination) (volume.locate b.source)
  holds : ∀ pair ∈ pairs, volume.tree.Holds (volume.locate pair.destination)

/-! ## The commands of a synchronisation -/

namespace Forest

variable {forest : Forest} {rules : Rules} {τ : Type} {out : Sink τ}

theorem exists_shallow_all {pairs : List Pair} (h : ∀ pair ∈ pairs, forest.CoversPair pair) :
    ∃ depth, ∀ pair ∈ pairs, forest.Shallow depth pair := by
  induction pairs with
  | nil => exact ⟨0, fun _ h => absurd h List.not_mem_nil⟩
  | cons pair pairs ih =>
      rw [List.forall_mem_cons] at h
      obtain ⟨m, hm⟩ := exists_shallow h.1
      obtain ⟨n, hn⟩ := ih h.2
      refine ⟨max m n, List.forall_mem_cons.mpr ⟨hm.mono (Nat.le_max_left _ _), fun other hother => ?_⟩⟩
      exact (hn other hother).mono (Nat.le_max_right _ _)

/-- Only pairs of text paths are walked through to the end. -/
theorem isText_of_walk_ok {σ : Type} {fs : FileSystem σ} {budget : Nat} {pair : Pair}
    {start finish : Run σ τ}
    (h : (walk rules budget pair).run fs out start = (.ok (), finish)) :
    pair.source.isText = true ∧ pair.destination.isText = true := by
  have hwalk : (Recursive.walk rules budget pair).run fs out start = (.ok (), finish) := by
    rw [← (walk_run_eq (Dialogue.concludes_of_run_ok _ _ h)).2]
    exact h
  cases budget with
  | zero => cases hwalk
  | succ depth =>
      unfold Recursive.walk Recursive.visit Walk.requireText at hwalk
      by_cases hs : pair.source.isText = true
      · rw [if_pos hs, pure_bind] at hwalk
        by_cases hd : pair.destination.isText = true
        · exact ⟨hs, hd⟩
        · rw [if_neg hd] at hwalk
          cases hwalk
      · rw [if_neg hs] at hwalk
        cases hwalk

/-- The walks of a successful run emit the commands for each pair, one pair after another. -/
theorem commands_of_walkAll_ok {pairs : List Pair} {budget depth : Nat}
    {start finish : Run Unit τ} (hpairs : ∀ pair ∈ pairs, forest.CoversPair pair)
    (hdepth : ∀ pair ∈ pairs, forest.Shallow depth pair)
    (h : (Sync.walkAll rules budget pairs).run forest.fileSystem out start = (.ok (), finish)) :
    finish.commands = start.commands ++ pairs.flatMap (forest.commands rules depth) := by
  induction pairs generalizing start with
  | nil =>
      cases h
      simp
  | cons pair pairs ih =>
      rw [List.forall_mem_cons] at hpairs hdepth
      obtain ⟨_, logged, hlog, h⟩ := Dialogue.run_bind_ok.mp h
      obtain ⟨_, mid, hwalk, hrest⟩ := Dialogue.run_bind_ok.mp h
      have hc := Dialogue.concludes_of_run_ok _ _ hwalk
      have htakes :=
        (unlessRefused_walk hpairs.1 hdepth.1 (isText_of_walk_ok hwalk) hc).of_run_ok hwalk
      rw [Dialogue.run_log] at hlog
      cases hlog
      rw [ih hpairs.2 hdepth.2 hrest, htakes.commands, Run.commands_happened_logged,
        List.flatMap_cons, List.append_assoc]
      rfl

end Forest

/-- A successful run emits the commands for each pair, and then some for the version
control. -/
theorem Forest.commands_of_sync_ok {forest : Forest} {rules : Rules} {τ : Type} {out : Sink τ}
    {pairs : List Pair} {budget depth : Nat} {start finish : Run Unit τ} {report : Report}
    (hpairs : ∀ pair ∈ pairs, forest.CoversPair pair)
    (hdepth : ∀ pair ∈ pairs, forest.Shallow depth pair)
    (h : (sync rules budget pairs).run forest.fileSystem out start = (.ok report, finish)) :
    ∃ batches : List Command, (∀ command ∈ batches, command.isVersionControl = true) ∧
      finish.commands =
        start.commands ++ pairs.flatMap (forest.commands rules depth) ++ batches := by
  obtain ⟨walked, hwalks, hcommands, -⟩ := Sync.exists_of_sync_ok h
  refine ⟨Sync.batches rules walked.session, fun _ => Sync.isVersionControl_of_mem_batches, ?_⟩
  rw [hcommands, commands_of_walkAll_ok hpairs hdepth hwalks]

/-! ## Success -/

section
variable {τ : Type} {out : Sink τ} {rules : Rules}

theorem Forest.exists_walkAll_ok {forest : Forest} {pairs : List Pair}
    (hout : out.AcceptsAll)
    (hpairs : ∀ pair ∈ pairs, forest.CoversPair pair)
    (htext : ∀ pair ∈ pairs, pair.source.isText = true ∧ pair.destination.isText = true)
    (start : Run Unit τ) :
    ∃ budget, ∀ more, budget ≤ more → ∃ finish,
      (Sync.walkAll rules more pairs).run forest.fileSystem out start = (.ok (), finish) := by
  induction pairs generalizing start with
  | nil => exact ⟨0, fun _ _ => ⟨start, rfl⟩⟩
  | cons pair pairs ih =>
      rw [List.forall_mem_cons] at hpairs htext
      -- Where the walk ends does not depend on its budget, so the rest has one start for all.
      obtain ⟨m, mid, hm⟩ := exists_walk_ok rules hpairs.1 htext.1 hout
        (start.happened (.logged (.reconciling pair)))
      obtain ⟨n, hn⟩ := ih hpairs.2 htext.2 mid
      -- The larger of the two budgets does for this walk and for the others.
      refine ⟨max m n, fun more hmore => ?_⟩
      have hmid := hm more (Nat.le_trans (Nat.le_max_left m n) hmore)
      obtain ⟨finish, hfinish⟩ := hn more (Nat.le_trans (Nat.le_max_right m n) hmore)
      refine ⟨finish, Dialogue.run_bind_ok.mpr ⟨(), _, Dialogue.run_log .., ?_⟩⟩
      exact Dialogue.run_bind_ok.mpr ⟨(), mid, hmid, hfinish⟩

/-- **Synchronising a forest succeeds.** With a sink that takes every command, and with every
budget from some one on, pairs of text paths are synchronised to the end. -/
theorem Forest.exists_sync_ok (forest : Forest) (rules : Rules) {pairs : List Pair}
    (hout : out.AcceptsAll)
    (hpairs : ∀ pair ∈ pairs, forest.CoversPair pair)
    (htext : ∀ pair ∈ pairs, pair.source.isText = true ∧ pair.destination.isText = true)
    (start : Run Unit τ) :
    ∃ budget, ∀ more, budget ≤ more → ∃ report finish,
      (sync rules more pairs).run forest.fileSystem out start = (.ok report, finish) := by
  obtain ⟨budget, hb⟩ := exists_walkAll_ok hout hpairs htext start
  refine ⟨budget, fun more hmore => ?_⟩
  obtain ⟨walked, hwalked⟩ := hb more hmore
  obtain ⟨report, finish, hfinish⟩ := Sync.exists_conclude_ok forest.fileSystem hout
    (Sync.batches rules walked.session) walked
  exact ⟨report, finish, (Sync.run_sync_of_ok hwalked).trans hfinish⟩

end

/-! ## Whole plans -/

/-- The commands of a successful run can be carried out, and make every destination like its
source. -/
theorem Volume.exists_executeAll_of_sync_ok {volume : Volume} {rules : Rules} {pairs : List Pair}
    (hpairs : volume.Admits pairs) {τ : Type} {out : Sink τ} {sink : τ} {budget : Nat}
    {report : Report} {finish : Run Unit τ}
    (h : (sync rules budget pairs).run volume.fileSystem out ⟨(), sink, {}, #[]⟩ =
      (.ok report, finish)) :
    ∃ after,
      volume.tree.executeAll volume.locate finish.commands = some after ∧
        (∀ pair ∈ pairs, ∀ rel, volume.Plain rules rel →
          after (volume.locate pair.destination ++ rel) =
            volume.tree (volume.locate pair.source ++ rel)) ∧
        ∀ place, (∀ pair ∈ pairs, ¬ volume.locate pair.destination <+: place) →
          after place = volume.tree place := by
  obtain ⟨depth, hdepth⟩ := Forest.exists_shallow_all hpairs.covers
  obtain ⟨batches, hbatches, hcommands⟩ := Forest.commands_of_sync_ok hpairs.covers hdepth h
  obtain ⟨after, hafter, hsame, hframe⟩ := Volume.exists_executeAll_pairs hpairs.destinations
    hpairs.sources (fun pair hpair => ⟨fun _ => rfl, fun _ => rfl, hpairs.holds pair hpair⟩)
    fun pair hpair => Volume.executes (hpairs.covers pair hpair) (hdepth pair hpair)
      (hpairs.sources pair hpair pair hpair).symm
  refine ⟨after, ?_, hsame, hframe⟩
  rw [hcommands]
  exact Tree.executeAll_append hafter (Tree.executeAll_of_isVersionControl hbatches)

/-- **Carrying out a plan.** Take any volume, and pairs that do not get in each other's way.
Pairs of text paths are synchronised to the end, with a sink that keeps every command and
with every budget from some one on. And whenever synchronising the pairs succeeds, with
whatever sink and budget, the commands that were emitted can be carried out one after another
on the tree of the volume: the requirement of each holds when its turn comes. Afterwards
every destination is like its source at every place that no name of metadata leads to, and
nothing outside of the destinations has changed. -/
theorem sync_plan_executes (volume : Volume) (rules : Rules) (pairs : List Pair)
    (hpairs : volume.Admits pairs) :
    ((∀ pair ∈ pairs, pair.source.isText = true ∧ pair.destination.isText = true) →
      ∃ budget, ∀ more, budget ≤ more → ∃ report finish,
        (sync rules more pairs).run volume.fileSystem (.collect none) ⟨(), #[], {}, #[]⟩ =
          (.ok report, finish)) ∧
      ∀ (τ : Type) (out : Sink τ) (sink : τ) (budget : Nat) (report : Report)
        (finish : Run Unit τ),
        (sync rules budget pairs).run volume.fileSystem out ⟨(), sink, {}, #[]⟩ =
          (.ok report, finish) →
        ∃ after,
          volume.tree.executeAll volume.locate finish.commands = some after ∧
            (∀ pair ∈ pairs, ∀ rel, volume.Plain rules rel →
              after (volume.locate pair.destination ++ rel) =
                volume.tree (volume.locate pair.source ++ rel)) ∧
            ∀ place, (∀ pair ∈ pairs, ¬ volume.locate pair.destination <+: place) →
              after place = volume.tree place := by
  constructor
  · intro htext
    exact volume.exists_sync_ok rules Sink.acceptsAll_collect hpairs.covers htext _
  · intro τ out sink budget report finish h
    exact Volume.exists_executeAll_of_sync_ok hpairs h

/-- A plan for two pairs: a directory takes the place of a file, and a file that of a directory
in which metadata are left. -/
theorem sync_plan_executes_swapped :
    let nodes : List (Place × Tree.Node) := [([[0x73]], .directory), ([[0x73], [0x61]], .file [0x31]),
      ([[0x74]], .file []),
      ([[0x64]], .file []), ([[0x65]], .directory),
      ([[0x65], [0x2E, 0x73, 0x76, 0x6E]], .directory), ([[0x65], [0x63]], .file [])]
    let pairs : List Pair := [⟨.ofString "s", .ofString "d"⟩, ⟨.ofString "t", .ofString "e"⟩]
    ∃ h : Tree.Placed nodes,
      let volume := Volume.ofNodes nodes h
      volume.Admits pairs ∧ ∃ report finish,
        (sync {} 20 pairs).run volume.fileSystem (.collect none) ⟨(), #[], {}, #[]⟩ =
            (.ok report, finish) ∧
          ∃ after,
            volume.tree.executeAll volume.locate finish.commands = some after ∧
              (∀ pair ∈ pairs, ∀ rel, volume.Plain {} rel →
                after (volume.locate pair.destination ++ rel) =
                  volume.tree (volume.locate pair.source ++ rel)) ∧
              ∀ place, (∀ pair ∈ pairs, ¬ volume.locate pair.destination <+: place) →
                after place = volume.tree place := by
  intro nodes pairs
  have h : Tree.Placed nodes := by decide +kernel
  have hdestinations : pairs.Pairwise fun a b => Apart a.destination.place b.destination.place := by
    decide +kernel
  have hsources : ∀ a ∈ pairs, ∀ b ∈ pairs, Apart a.destination.place b.source.place := by
    decide +kernel
  have hholds : ∀ pair ∈ pairs, (Tree.ofNodes nodes).Holds pair.destination.place := by
    decide +kernel
  have hpairs : (Volume.ofNodes nodes h).Admits pairs :=
    ⟨fun _ _ => ⟨trivial, trivial⟩, hdestinations, hsources, hholds⟩
  have hok : ((sync {} 20 pairs).run (.ofAnswers (Tree.answersOf nodes)) (.collect none)
      ⟨(), #[], {}, #[]⟩).1.isOk = true := by
    decide +kernel
  rcases hrun : (sync {} 20 pairs).run (.ofAnswers (Tree.answersOf nodes)) (.collect none)
      ⟨(), #[], {}, #[]⟩ with ⟨failure | report, finish⟩
  · rw [hrun] at hok
    cases hok
  · exact ⟨h, hpairs, report, finish, hrun, (sync_plan_executes _ _ _ hpairs).2 _ _ _ _ _ _ hrun⟩
end TreePlan

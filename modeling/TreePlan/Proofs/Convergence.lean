import TreePlan.Proofs.Alone
import TreePlan.Proofs.Difference
import TreePlan.Proofs.Execution
import TreePlan.Proofs.Regrowth
import Mathlib.Data.List.Pairwise

/-!
# Synchronising comes to an end

A plan is empty exactly if both sides of each pair are in step, and carrying out a plan brings them
in step. So one plan is enough; and where only a part of it was carried out, planning once more is
enough.

* `Forest.InStep` and `commands_eq_nil_iff`: when there is nothing to do.
* `Forest.Settled` says that synchronising the pairs does nothing.
* `Volume.Converges` says that carrying out a plan leads to where the pairs are settled.
* `sync_converges` puts it together, from any state that a part of a plan leads to.
-/

namespace TreePlan

variable {τ : Type} {rules : Rules} {pairs : List Pair} {pair : Pair}

/-! ## Nothing to do -/

namespace Forest

variable {forest : Forest}

/-- Both sides of a pair are of one kind at every place that is not passed over, and two files hold
the same bytes. -/
def InStep (forest : Forest) (rules : Rules) (pair : Pair) : Prop :=
  ∀ rel, forest.Plain rules rel →
    forest.kind (pair.source.below rel) = forest.kind (pair.destination.below rel) ∧
      (forest.kind (pair.source.below rel) = .file →
        forest.contents (pair.source.below rel) = forest.contents (pair.destination.below rel))

/-- Synchronising the pairs comes to its end, and does and reports nothing. -/
structure Settled (forest : Forest) (rules : Rules) (pairs : List Pair) : Prop where
  succeeds : ∃ budget, ∀ more, budget ≤ more → ∃ report finish,
    (sync rules more pairs).run forest.fileSystem (.collect none) ⟨(), #[], {}, #[]⟩ =
      (.ok report, finish)
  report_eq : ∀ (τ : Type) (out : Sink τ) (sink : τ) (budget : Nat) (report : Report)
    (finish : Run Unit τ),
    (sync rules budget pairs).run forest.fileSystem out ⟨(), sink, {}, #[]⟩ =
        (.ok report, finish) →
      report = ⟨0, #[], #[], false⟩

namespace Difference

variable {commands : List Command} {session : Session}

/-- What is in step makes no difference. -/
theorem of_inStep (h : forest.Difference rules pair commands session)
    (hstep : forest.InStep rules pair) :
    commands = [] ∧ session.adds.toList = [] ∧ session.deletes.toList = [] ∧
      session.conflict = false := by
  refine ⟨?_, ?_, ?_, ?_⟩
  · -- no place demands a command
    apply List.eq_nil_iff_forall_not_mem.mpr
    intro command hcommand
    obtain ⟨rel, hrel, hdemands⟩ := (h.mem_commands command).mp hcommand
    obtain ⟨hkind, hcontents⟩ := hstep rel hrel
    cases hdemands with
    | remove _ hne => exact hne hkind
    | mkdir hs hd => exact hd (hkind ▸ hs)
    | copy hs hd => exact hd.elim (fun hd => hd (hkind ▸ hs)) fun hne => hne (hcontents hs)
  · apply List.eq_nil_iff_forall_not_mem.mpr
    intro path hpath
    obtain ⟨rel, hrel, -, -, hne⟩ := (h.mem_adds path).mp hpath
    exact hne (hstep rel hrel).1
  · apply List.eq_nil_iff_forall_not_mem.mpr
    intro path hpath
    obtain ⟨rel, hrel, -, -, hne⟩ := (h.mem_deletes path).mp hpath
    exact hne (hstep rel hrel).1
  · -- a conflict needs two kinds
    rw [← Bool.not_eq_true, h.conflict]
    rintro ⟨rel, hrel, hkinds⟩
    rw [(hstep rel hrel).1] at hkinds
    rcases hkinds with ⟨hs, hd⟩ | ⟨hs, hd⟩
    · rw [hs] at hd
      cases hd
    · rw [hs] at hd
      cases hd

/-- Where no command is demanded, both sides are in step. -/
theorem inStep (h : forest.Difference rules pair [] session) : forest.InStep rules pair := by
  intro rel hrel
  have hnone : ∀ command, ¬ forest.Demands pair rel command := fun command hdemands =>
    List.not_mem_nil ((h.mem_commands command).mpr ⟨rel, hrel, hdemands⟩)
  have hkind : forest.kind (pair.source.below rel) = forest.kind (pair.destination.below rel) := by
    -- Two kinds that differ demand a command, whatever they are.
    by_contra hne
    cases hd : forest.kind (pair.destination.below rel) with
    | file | directory => exact hnone _ (.remove (by rw [hd]; exact nofun) hne)
    | missing =>
        cases hs : forest.kind (pair.source.below rel) with
        | missing => exact hne (hs.trans hd.symm)
        | file => exact hnone _ (.copy hs (.inl (by rw [hd]; exact nofun)))
        | directory => exact hnone _ (.mkdir hs (by rw [hd]; exact nofun))
  refine ⟨hkind, fun hs => ?_⟩
  by_contra hne
  exact hnone _ (.copy hs (.inr hne))

end Difference

/-- A walk by itself that succeeds computes the difference. -/
theorem difference_of_walk_ok {budget : Nat} {files : Unit} {own : Run Unit (Array Command)}
    (hpair : forest.CoversPair pair)
    (hrun : (walk rules budget pair).run forest.fileSystem (.collect none) ⟨files, #[], {}, #[]⟩ =
      (.ok (), own)) : forest.Difference rules pair own.commands own.session := by
  obtain ⟨depth, hdepth⟩ := exists_shallow hpair
  have hconcludes := Dialogue.concludes_of_run_ok _ _ hrun
  have htext := isText_of_walk_ok hrun
  have htakes := (unlessRefused_walk hpair hdepth htext hconcludes).of_run_ok hrun
  exact difference_of_takes hpair hdepth rfl rfl htakes

section
variable {out : Sink τ} {sink : τ} {budget : Nat} {report : Report} {finish : Run Unit τ}

/-- Pairs that are in step give nothing to do and nothing to report. -/
theorem nothing_of_inStep (hpairs : ∀ pair ∈ pairs, forest.CoversPair pair)
    (hstep : ∀ pair ∈ pairs, forest.InStep rules pair)
    (h : (sync rules budget pairs).run forest.fileSystem out ⟨(), sink, {}, #[]⟩ =
      (.ok report, finish)) : finish.commands = [] ∧ report = ⟨0, #[], #[], false⟩ := by
  obtain ⟨runs, walked, halone, hruns, hcommands, -, -, hreport⟩ := exists_alone_of_sync_ok h
  have hnothing : ∀ own ∈ runs, own.commands = [] ∧ own.session.adds.toList = [] ∧
      own.session.deletes.toList = [] ∧ own.session.conflict = false := by
    intro own hown
    obtain ⟨pair, hpair, before, hrun⟩ := halone.walks.1 _ hown
    exact (difference_of_walk_ok (hpairs pair hpair) hrun).of_inStep (hstep pair hpair)
  have hwalked : walked.commands = [] := by
    rw [hruns.commands]
    exact List.flatMap_eq_nil_iff.mpr fun own hown => (hnothing own hown).1
  have hadds : walked.session.adds = #[] := by
    rw [← Array.toList_eq_nil_iff, hruns.adds]
    exact List.flatMap_eq_nil_iff.mpr fun own hown => (hnothing own hown).2.1
  have hdeletes : walked.session.deletes = #[] := by
    rw [← Array.toList_eq_nil_iff, hruns.deletes]
    exact List.flatMap_eq_nil_iff.mpr fun own hown => (hnothing own hown).2.2.1
  have hconflict : walked.session.conflict = false := by
    rw [hruns.conflict]
    exact List.any_eq_false.mpr fun own hown => by simp [(hnothing own hown).2.2.2]
  have hempty : finish.commands = [] := by
    rw [hcommands, hwalked, hreport]
    simp [Session.report, Report.closing, hadds, hdeletes, hconflict]
  refine ⟨hempty, ?_⟩
  rw [hreport, hempty]
  simp [Session.report, hadds, hdeletes, hconflict]

/-- **When a plan is empty.** A synchronisation that succeeds has emitted nothing exactly if both
sides of every pair are in step. -/
theorem commands_eq_nil_iff (hpairs : ∀ pair ∈ pairs, forest.CoversPair pair)
    (h : (sync rules budget pairs).run forest.fileSystem out ⟨(), sink, {}, #[]⟩ =
      (.ok report, finish)) :
    finish.commands = [] ↔ ∀ pair ∈ pairs, forest.InStep rules pair := by
  constructor
  · intro hempty pair hpair
    obtain ⟨runs, walked, halone, hruns, hcommands, -⟩ := exists_alone_of_sync_ok h
    rw [hcommands, hruns.commands] at hempty
    have hnothing := (List.append_eq_nil_iff.mp hempty).1
    obtain ⟨own, hown, before, hrun⟩ := halone.walks.2 _ hpair
    have hcommands : own.commands = [] := List.flatMap_eq_nil_iff.mp hnothing own hown
    have hdifference := difference_of_walk_ok (hpairs pair hpair) hrun
    rw [hcommands] at hdifference
    exact hdifference.inStep
  · intro hstep
    exact (nothing_of_inStep hpairs hstep h).1

theorem settled_of_inStep (hpairs : ∀ pair ∈ pairs, forest.CoversPair pair)
    (htext : ∀ pair ∈ pairs, pair.source.isText = true ∧ pair.destination.isText = true)
    (hstep : ∀ pair ∈ pairs, forest.InStep rules pair) : forest.Settled rules pairs where
  succeeds := forest.exists_sync_ok rules Sink.acceptsAll_collect hpairs htext _
  report_eq _ _ _ _ _ _ hrun := (nothing_of_inStep hpairs hstep hrun).2

end

end Forest

/-! ## Carrying out plans -/

namespace Volume

/-- The commands can be carried out, and what there is afterwards is a volume; `P` holds of it,
however its directories are listed. -/
def Yields (volume : Volume) (commands : List Command) (P : Volume → Prop) : Prop :=
  ∃ after, volume.tree.executeAll volume.locate commands = some after ∧
    (∃ next, volume.Regrown after next) ∧ ∀ next, volume.Regrown after next → P next

/-- Synchronising the pairs comes to its end, and carrying out whatever it plans settles the pairs.
-/
structure Converges (volume : Volume) (rules : Rules) (pairs : List Pair) : Prop where
  succeeds : ∃ budget, ∀ more, budget ≤ more → ∃ report finish,
    (sync rules more pairs).run volume.fileSystem (.collect none) ⟨(), #[], {}, #[]⟩ =
      (.ok report, finish)
  settles : ∀ (τ : Type) (out : Sink τ) (sink : τ) (budget : Nat) (report : Report)
    (finish : Run Unit τ),
    (sync rules budget pairs).run volume.fileSystem out ⟨(), sink, {}, #[]⟩ =
        (.ok report, finish) →
      volume.Yields finish.commands fun next => next.Settled rules pairs

variable {volume next : Volume} {after : Tree}

theorem Yields.of_executeAll {commands : List Command} {P : Volume → Prop}
    (hafter : volume.tree.executeAll volume.locate commands = some after)
    (hnext : ∀ next, volume.Regrown after next → P next) : volume.Yields commands P :=
  ⟨after, hafter, (volume.sound_tree.executeAll hafter).exists_regrown, hnext⟩

/-- Where the trees on both sides are the same, a pair is in step. -/
theorem inStep_of_tree_eq (hpair : volume.CoversPair pair)
    (h : ∀ rel, volume.Plain rules rel → volume.tree (volume.locate pair.destination ++ rel) =
      volume.tree (volume.locate pair.source ++ rel)) : volume.InStep rules pair := by
  intro rel hrel
  have hs := Forest.covers_below hpair.source hrel.isEntry
  have hd := Forest.covers_below hpair.destination hrel.isEntry
  have heq : volume.tree (volume.locate (pair.destination.below rel)) =
      volume.tree (volume.locate (pair.source.below rel)) := by
    rw [locate_below hpair.destination hrel.isEntry, locate_below hpair.source hrel.isEntry]
    exact h rel hrel
  constructor
  · rw [volume.kind_eq hs, volume.kind_eq hd, heq]
  · intro hfile
    have hnode := (kind_eq_file hs).mp hfile
    exact (volume.contents_eq hd (heq.trans hnode)).symm

/-- **One plan is enough.** -/
theorem converges (hpairs : volume.Admits pairs)
    (htext : ∀ pair ∈ pairs, pair.source.isText = true ∧ pair.destination.isText = true) :
    volume.Converges rules pairs where
  succeeds := volume.exists_sync_ok rules Sink.acceptsAll_collect hpairs.covers htext _
  settles τ out sink budget report finish h := by
    obtain ⟨after, hafter, hsame, hframe⟩ := exists_executeAll_of_sync_ok hpairs h
    apply Yields.of_executeAll hafter
    intro next hnext
    have hcovers := fun pair hpair => hnext.coversPair (hpairs.covers pair hpair)
    apply Forest.settled_of_inStep hcovers htext
    intro pair hpair
    apply inStep_of_tree_eq (hcovers pair hpair)
    intro rel hrel
    rw [hnext.tree, hnext.locate, hsame pair hpair rel (hnext.plain.mp hrel)]
    -- No source is at or below a destination.
    refine (hframe _ fun other hother => ?_).symm
    exact (hpairs.sources other hother pair hpair).not_above (List.prefix_append _ _)

/-! ## After a part of a plan -/

/-- A plan is about nothing but what is at or below the destinations. -/
theorem exists_of_target {τ : Type} {out : Sink τ} {sink : τ} {budget : Nat} {report : Report}
    {finish : Run Unit τ} (hpairs : ∀ pair ∈ pairs, volume.CoversPair pair)
    (h : (sync rules budget pairs).run volume.fileSystem out ⟨(), sink, {}, #[]⟩ =
      (.ok report, finish)) {command : Command} (hcommand : command ∈ finish.commands) {path : Path}
    (hpath : command.target? = some path) :
    ∃ pair ∈ pairs, volume.locate pair.destination <+: volume.locate path := by
  obtain ⟨depth, hdepth⟩ := Forest.exists_shallow_all hpairs
  obtain ⟨batches, hbatches, hcommands⟩ := Forest.commands_of_sync_ok hpairs hdepth h
  rw [hcommands] at hcommand
  rcases List.mem_append.mp hcommand with hwalk | hbatch
  · obtain ⟨pair, hpair, hmem⟩ := List.mem_flatMap.mp hwalk
    obtain ⟨rel, hrel, hdemands⟩ :=
      (Forest.demands_iff (hpairs pair hpair) (hdepth pair hpair)).mp hmem
    have htarget : path = pair.destination.below rel := by
      cases hdemands <;> exact (Option.some.inj hpath).symm
    refine ⟨pair, hpair, ?_⟩
    rw [htarget, locate_below (hpairs pair hpair).destination hrel.isEntry]
    exact List.prefix_append _ _
  · -- the batches change no path
    rw [Command.target?_of_isVersionControl (hbatches command hbatch)] at hpath
    cases hpath

/-- What holds a destination is not at or below a destination. -/
theorem Admits.not_above_dropLast (hpairs : volume.Admits pairs) {other : Pair}
    (hpair : pair ∈ pairs) (hother : other ∈ pairs) :
    ¬ volume.locate other.destination <+: (volume.locate pair.destination).dropLast := by
  intro habove
  by_cases heq : other = pair
  · -- nothing is above the directory that holds it
    rw [heq] at habove
    have hlength := habove.length_le
    have hpos := List.length_pos_of_ne_nil (hpairs.holds pair hpair).1
    rw [List.length_dropLast] at hlength
    omega
  · -- two destinations are apart
    have hsymm : Std.Symm fun a b : Pair =>
        Apart (volume.locate a.destination) (volume.locate b.destination) := ⟨fun _ _ => Apart.symm⟩
    have hapart := hpairs.destinations.forall hother hpair heq
    exact hapart.1 (habove.trans (List.dropLast_prefix _))

/-- The pairs still do not get in each other's way if nothing but the destinations has changed. -/
theorem Admits.regrown (hpairs : volume.Admits pairs) (hnext : volume.Regrown after next)
    (hframe : ∀ place, (∀ pair ∈ pairs, ¬ volume.locate pair.destination <+: place) →
      after place = volume.tree place) : next.Admits pairs where
  covers pair hpair := hnext.coversPair (hpairs.covers pair hpair)
  destinations := by
    rw [hnext.locate]
    exact hpairs.destinations
  sources := by
    rw [hnext.locate]
    exact hpairs.sources
  holds pair hpair := by
    rw [hnext.locate, hnext.tree]
    refine ⟨(hpairs.holds pair hpair).1, ?_⟩
    rw [hframe _ fun other hother => hpairs.not_above_dropLast hpair hother]
    exact (hpairs.holds pair hpair).2

end Volume

/-- **Synchronising converges.** Take any list of pairs of text paths.

Over any forest, synchronising them comes to its end, with a sink that keeps every command and with
every budget from some one on; and whenever it does, with whatever sink and budget, it has emitted
no command exactly if both sides of every pair are in step.

Over any volume in which the pairs do not get in each other's way, the commands of a
synchronisation that succeeds can be carried out, and then a second one comes to its end and has
nothing to do and nothing to report. And if only some of the commands were carried out, the first
ones of them, then a new synchronisation comes to its end, what it plans can be carried out, and
then there is nothing left to do. -/
theorem sync_converges (rules : Rules) (pairs : List Pair)
    (htext : ∀ pair ∈ pairs, pair.source.isText = true ∧ pair.destination.isText = true) :
    (∀ forest : Forest, (∀ pair ∈ pairs, forest.CoversPair pair) →
      (∃ budget, ∀ more, budget ≤ more → ∃ report finish,
        (sync rules more pairs).run forest.fileSystem (.collect none) ⟨(), #[], {}, #[]⟩ =
          (.ok report, finish)) ∧
      ∀ (τ : Type) (out : Sink τ) (sink : τ) (budget : Nat) (report : Report)
        (finish : Run Unit τ),
        (sync rules budget pairs).run forest.fileSystem out ⟨(), sink, {}, #[]⟩ =
            (.ok report, finish) →
          (finish.commands = [] ↔ ∀ pair ∈ pairs, forest.InStep rules pair)) ∧
    ∀ volume : Volume, volume.Admits pairs →
      volume.Converges rules pairs ∧
      ∀ (τ : Type) (out : Sink τ) (sink : τ) (budget : Nat) (report : Report)
        (finish : Run Unit τ),
        (sync rules budget pairs).run volume.fileSystem out ⟨(), sink, {}, #[]⟩ =
            (.ok report, finish) →
          ∀ carried, carried <+: finish.commands →
            volume.Yields carried fun next => next.Converges rules pairs := by
  constructor
  · intro forest hpairs
    refine ⟨forest.exists_sync_ok rules Sink.acceptsAll_collect hpairs htext _, ?_⟩
    intro τ out sink budget report finish h
    exact Forest.commands_eq_nil_iff hpairs h
  · intro volume hpairs
    refine ⟨Volume.converges hpairs htext, ?_⟩
    -- What was interrupted has carried out the first of the commands.
    intro τ out sink budget report finish h carried hcarried
    obtain ⟨after, hafter, -⟩ := Volume.exists_executeAll_of_sync_ok hpairs h
    obtain ⟨mid, hmid⟩ := Tree.exists_executeAll_prefix hcarried hafter
    apply Volume.Yields.of_executeAll hmid
    intro next hnext
    -- Only places at or below destinations have changed, so the pairs are admitted as before.
    refine Volume.converges (hpairs.regrown hnext fun place hplace => ?_) htext
    apply Tree.executeAll_frame _ hmid
    intro command hcommand path hpath habove
    obtain ⟨pair, hpair, hbelow⟩ :=
      Volume.exists_of_target hpairs.covers h (hcarried.subset hcommand) hpath
    exact hplace pair hpair (hbelow.trans habove)

/-- A plan for two pairs that was broken off: the file of the second pair was removed from its
directory, in which metadata are left, and the directory is still in the way. -/
theorem sync_converges_interrupted :
    let nodes : List (Place × Tree.Node) := [([[0x73]], .directory), ([[0x73], [0x61]], .file [0x31]),
      ([[0x74]], .file []),
      ([[0x64]], .file []), ([[0x65]], .directory),
      ([[0x65], [0x2E, 0x73, 0x76, 0x6E]], .directory), ([[0x65], [0x63]], .file [])]
    let pairs : List Pair := [⟨.ofString "s", .ofString "d"⟩, ⟨.ofString "t", .ofString "e"⟩]
    (∀ pair ∈ pairs, pair.source.isText = true ∧ pair.destination.isText = true) ∧
      ∃ h : Tree.Placed nodes,
        let volume := Volume.ofNodes nodes h
        volume.Admits pairs ∧ ∃ report finish,
          (sync {} 20 pairs).run volume.fileSystem (.collect none) ⟨(), #[], {}, #[]⟩ =
              (.ok report, finish) ∧
            finish.commands.take 4 = [.remove (.ofString "d") false, .mkdir (.ofString "d"),
              .copy (.ofString "s/a") (.ofString "d/a"), .remove (.ofString "e/c") false] ∧
            (finish.commands = [] ↔ ∀ pair ∈ pairs, volume.InStep {} pair) ∧
            volume.Converges {} pairs ∧
            volume.Yields (finish.commands.take 4) fun next => next.Converges {} pairs := by
  intro nodes pairs
  have htext : ∀ pair ∈ pairs, pair.source.isText = true ∧ pair.destination.isText = true := by
    decide +kernel
  have h : Tree.Placed nodes := by decide +kernel
  have hdestinations : pairs.Pairwise fun a b => Apart a.destination.place b.destination.place := by
    decide +kernel
  have hsources : ∀ a ∈ pairs, ∀ b ∈ pairs, Apart a.destination.place b.source.place := by
    decide +kernel
  have hholds : ∀ pair ∈ pairs, (Tree.ofNodes nodes).Holds pair.destination.place := by
    decide +kernel
  have hpairs : (Volume.ofNodes nodes h).Admits pairs :=
    ⟨fun _ _ => ⟨trivial, trivial⟩, hdestinations, hsources, hholds⟩
  obtain ⟨hforest, hvolume⟩ := sync_converges {} pairs htext
  obtain ⟨hconverges, hyields⟩ := hvolume _ hpairs
  rcases hrun : (sync {} 20 pairs).run (.ofAnswers (Tree.answersOf nodes)) (.collect none)
      ⟨(), #[], {}, #[]⟩ with ⟨failure | report, finish⟩
  · have hok : ((sync {} 20 pairs).run (.ofAnswers (Tree.answersOf nodes)) (.collect none)
        ⟨(), #[], {}, #[]⟩).1.isOk = true := by
      decide +kernel
    rw [hrun] at hok
    cases hok
  · have hcommands : ((sync {} 20 pairs).run (.ofAnswers (Tree.answersOf nodes)) (.collect none)
        ⟨(), #[], {}, #[]⟩).2.commands.take 4 = [.remove (.ofString "d") false,
          .mkdir (.ofString "d"), .copy (.ofString "s/a") (.ofString "d/a"),
          .remove (.ofString "e/c") false] := by
      decide +kernel
    rw [hrun] at hcommands
    exact ⟨htext, h, hpairs, report, finish, hrun, hcommands,
      (hforest (Volume.ofNodes nodes h).toForest hpairs.covers).2 _ _ _ _ _ _ hrun, hconverges,
      hyields _ _ _ _ _ _ hrun _ (List.take_prefix _ _)⟩

end TreePlan

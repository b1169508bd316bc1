import TreePlan.Proofs.Disk.Depth
import TreePlan.Proofs.Disk.Walk
import TreePlan.Proofs.Termination

/-!
# Cycles of links

Where a link leads back to a directory above it, each way round has a text of its own, and all of
them are there to be visited. Neither does a synchronisation go round for ever, nor does it succeed:

* `exists_budget_sync`: what limits the links that are followed also limits how far down a directory
  is found, and so every walk ends;
* `not_entered_again`: a synchronisation that succeeds has visited all that there is below a place,
  and so it has found no directory there that is the place itself. Else it would have found it again
  further below, and again, deeper down than any directory is.
-/

namespace TreePlan.Disk

variable {disk : Disk} {here : Location} {rules : Rules} {budget : Nat} {τ : Type} {out : Sink τ}

/-! ## Every synchronisation ends -/

/-- The tree and the limit on links bound how deep a walk gets. -/
theorem bottomed (disk : Disk) (here : Location) (pair : Pair) :
    Bottomed (disk.fileSystem here) NodeName (disk.height + maxLinks * (disk.height + 1) + 1)
      pair := by
  intro rel hrel hlength
  have hside : ∀ base : Path,
      ¬ (disk.fileSystem here).Gives (.classify (base.below rel)) .directory := by
    intro base hgives
    have hdirectory := isDirectory_of_classify (gives_ofAnswers_iff.mp hgives)
    have hle := length_le_of_isDirectory hrel hdirectory
    omega
  exact ⟨hside pair.source, hside pair.destination⟩

theorem exists_budget_sync (hnamed : disk.Named) (here : Location) (out : Sink τ) (rules : Rules)
    (pairs : List Pair) (start : Run Unit τ) :
    ∃ budget, ∀ more, budget ≤ more →
      (sync rules more pairs).concludes (disk.fileSystem here) out start = true ∧
        (sync rules more pairs).run (disk.fileSystem here) out start =
          (sync rules budget pairs).run (disk.fileSystem here) out start := by
  refine Sync.exists_budget_sync (fun pair _ begun => ?_) start
  obtain ⟨budget, hends⟩ := exists_budget_of_bottomed (nodeName_of_gives hnamed)
    (bottomed disk here pair) rules out begun
  exact ⟨budget, (hends budget (Nat.le_refl budget)).1⟩

/-! ## No synchronisation that succeeds goes round -/

/-- The run has visited the place and found a directory at one side, the one at the location. -/
structure Entered (disk : Disk) (here : Location) (side : Side) (finish : Run Unit τ) (place : Pair)
    (dir : Location) : Prop where
  visited : ∃ source destination,
    .logged (.visiting source destination place) ∈ finish.events.toList ∧
      side.pick source destination = .directory
  found : disk.find here (place.on side) = .ok (dir, .directory)

section
variable {pairs : List Pair} {sink : τ} {report : Report} {finish : Run Unit τ} {side : Side}
  {place : Pair} {dir location : Location}
  (hrun : (sync rules budget pairs).run (disk.fileSystem here) out ⟨(), sink, {}, #[]⟩ =
    (.ok report, finish))
include hrun

/-- From a directory a synchronisation that succeeds goes on to those in it, whichever path of the
directory tells of them. -/
theorem Entered.child (h : disk.Entered here side finish place dir) {path : Path}
    (hpath : disk.find here path = .ok (dir, .directory)) {name : Name} (hname : NodeName name)
    (hvisible : name ∉ rules.metadataNames)
    (hentry : disk.find here (path.child name) = .ok (location, .directory)) :
    disk.Entered here side finish (place.child name) location := by
  obtain ⟨source, destination, hlogged, hdirectory⟩ := h.visited
  have hlist : disk.list here (place.on side) = .ok (disk.names dir) := by
    rw [list, h.found]
  obtain ⟨source', destination', hchild, hkind⟩ :=
    ((Sync.visits_of_ok hrun).2 _ _ _ hlogged).exists_visit side hdirectory hlist
      (mem_names_of_find hname hpath hentry) hvisible
  have hfound := find_child_of_find hname.segment hpath h.found hentry hkind
  refine ⟨⟨source', destination', hchild, ?_⟩, ?_⟩
  · exact Except.ok.inj (hkind.symm.trans (isDirectory_classify ⟨location, hfound⟩))
  · rw [Pair.on_child]
    exact hfound

theorem Entered.below (h : disk.Entered here side finish place dir) {path : Path}
    (hpath : disk.find here path = .ok (dir, .directory)) {rel : List Name}
    (hrel : ∀ n ∈ rel, NodeName n ∧ n ∉ rules.metadataNames)
    (hentry : disk.find here (path.below rel) = .ok (location, .directory)) :
    disk.Entered here side finish (place.below rel) location := by
  -- The names lead on below `path`, where the disk is known, and below `place` in the log.
  induction rel generalizing place path dir with
  | nil =>
      rw [Path.below_nil, hpath] at hentry
      cases hentry
      exact h
  | cons name rel ih =>
      obtain ⟨⟨hname, hvisible⟩, hrest⟩ := List.forall_mem_cons.mp hrel
      have hsegments : ∀ n ∈ rel, Segment n := fun n hn => (hrest n hn).1.segment
      obtain ⟨next, hnext⟩ := isDirectory_of_below (Path.child_ne_empty path hname.segment)
        hsegments ⟨location, hentry⟩
      exact ih (h.child hrun hpath hname hvisible hnext) hnext hrest hentry

/-- **Round and round**: a directory that is entered again below itself is entered there any number
of times. -/
theorem Entered.again (h : disk.Entered here side finish place dir) {rel : List Name}
    (hrel : ∀ n ∈ rel, NodeName n ∧ n ∉ rules.metadataNames)
    (hback : disk.find here ((place.on side).below rel) = .ok (dir, .directory)) (times : Nat) :
    disk.Entered here side finish (place.below (List.replicate times rel).flatten) dir := by
  induction times with
  | zero => exact h
  | succ times ih =>
      rw [List.replicate_succ', List.flatten_append, List.flatten_singleton, Pair.below_append]
      exact ih.below hrun h.found hrel hback

/-- **No directory is entered again below itself**: it would be entered deeper down than any
directory is. -/
theorem not_entered_again (h : disk.Entered here side finish place dir) {rel : List Name}
    (hrel : ∀ n ∈ rel, NodeName n ∧ n ∉ rules.metadataNames) (hne : rel ≠ []) :
    disk.find here ((place.on side).below rel) ≠ .ok (dir, .directory) := by
  intro hback
  -- So many times around is deeper than any directory can lie.
  let times := disk.height + maxLinks * (disk.height + 1) + 1
  have hdeep := (h.again hrun hrel hback times).found
  rw [Pair.on_below] at hdeep
  have hnames : ∀ n ∈ (List.replicate times rel).flatten, NodeName n := by
    intro n hn
    obtain ⟨names, hnames, hmem⟩ := List.mem_flatten.mp hn
    rw [List.eq_of_mem_replicate hnames] at hmem
    exact (hrel n hmem).1
  have hle := length_le_of_isDirectory hnames ⟨dir, hdeep⟩
  have hpos : 0 < rel.length := List.length_pos_iff.mpr hne
  have hlong : times ≤ (List.replicate times rel).flatten.length := by
    rw [List.length_flatten, List.map_replicate, List.sum_replicate_nat]
    exact Nat.le_mul_of_pos_right times hpos
  exact absurd (Nat.le_trans hlong hle) (Nat.not_succ_le_self _)

end

/-! ## Cycles -/

/-- A walk through `pair` has visited the place `above` and further down the place `below`, and at
one side both are paths of one directory. -/
structure Cycle (disk : Disk) (here : Location) (side : Side) (pair : Pair) (own : Run Unit τ)
    (above below : Pair) : Prop where
  /-- The empty path is that of no directory, although there is something below it. So where it is
  one of the pair, the walk has to have found the directory that it is about. -/
  above_visited : ∃ source destination, .visiting source destination above ∈ own.records ∧
    (pair.on side = .empty → side.pick source destination = .directory)
  below_visited : ∃ source destination, .visiting source destination below ∈ own.records
  under : (below.on side).Under (above.on side)
  same : ∃ dir, disk.find here (above.on side) = .ok (dir, .directory) ∧
    disk.find here (below.on side) = .ok (dir, .directory)

/-- A synchronisation in which a walk goes round fails. -/
theorem Cycle.fails (hnamed : disk.Named) {pairs : List Pair} {sink : τ}
    {result : Except Failure Report} {finish own : Run Unit τ} {pair above below : Pair}
    {side : Side}
    (hrun : (sync rules budget pairs).run (disk.fileSystem here) out ⟨(), sink, {}, #[]⟩ =
      (result, finish))
    (hwithin : Within (disk.fileSystem here) out rules budget pairs finish pair own)
    (h : disk.Cycle here side pair own above below) : ∃ failure, result = .error failure := by
  rcases result with failure | report
  · exact ⟨failure, rfl⟩
  exfalso
  obtain ⟨source, destination, habove, hempty⟩ := h.above_visited
  obtain ⟨source', destination', hbelow⟩ := h.below_visited
  obtain ⟨dir, hfirst, hsecond⟩ := h.same
  have hunder := h.under
  have hlogged := hwithin.subset (mem_records_iff.mp habove)
  -- Both places are places of the walk, so it is names that lead from one to the other.
  obtain ⟨steps, ended, hcourse, hfollows⟩ := hwithin.exists_course
  obtain ⟨rel, hrel, rfl⟩ := (hfollows.visits _ _ _).mp habove
  obtain ⟨longer, hlonger, rfl⟩ := (hfollows.visits _ _ _).mp hbelow
  have hsegments : ∀ {rel x}, (rel, x) ∈ steps → ∀ n ∈ rel, Segment n :=
    hcourse.segments (segment_of_gives hnamed)
  simp only [Pair.on_below] at hunder hfirst hsecond
  obtain ⟨name, rest, rfl⟩ :=
    Path.exists_of_under (pair.on side) (hsegments hrel) (hsegments hlonger) hunder
  have hnames : ∀ n ∈ name :: rest, NodeName n ∧ n ∉ rules.metadataNames := fun n hn =>
    hcourse.names (nodeName_of_gives hnamed) hlonger n (List.mem_append_right _ hn)
  have hdirectory : side.pick source destination = .directory := by
    by_cases hpair : pair.on side = .empty
    · -- this is part of what a cycle is
      exact hempty hpair
    · -- what is found was classified
      have hclassify :=
        classify_of_visited side hcourse hnamed hpair hrel (resolve_of_find hfirst).1
      exact Except.ok.inj (hclassify.symm.trans (isDirectory_classify ⟨dir, hfirst⟩))
  have hentered : disk.Entered here side finish (pair.below rel) dir := by
    refine ⟨⟨source, destination, hlogged, hdirectory⟩, ?_⟩
    rw [Pair.on_below]
    exact hfirst
  refine not_entered_again hrun hentered hnames (List.cons_ne_nil name rest) ?_
  rw [Pair.on_below, ← Path.below_append]
  exact hsecond

/-- **Cycles of links neither hang a synchronisation nor pass for a success.** On every disk,
whatever its links lead to, and for all pairs there is a budget from which on the synchronisation
comes to an end of its own, and always the same one. If then one of its walks has visited a
directory and, strictly below it, another path of that directory, the end is a failure. -/
theorem cycles_end_in_failure {disk : Disk} (hnamed : disk.Named) (here : Location) {τ : Type}
    (out : Sink τ) (sink : τ) (rules : Rules) (pairs : List Pair) :
    let start : Run Unit τ := ⟨(), sink, {}, #[]⟩
    ∃ budget, ∀ more, budget ≤ more →
      let outcome := (sync rules more pairs).run (disk.fileSystem here) out start
      (sync rules more pairs).concludes (disk.fileSystem here) out start = true ∧
        outcome = (sync rules budget pairs).run (disk.fileSystem here) out start ∧
          ∀ pair own, Within (disk.fileSystem here) out rules more pairs outcome.2 pair own →
            ∀ side above below, disk.Cycle here side pair own above below →
              ∃ failure, outcome.1 = .error failure := by
  intro start
  obtain ⟨budget, hends⟩ := exists_budget_sync hnamed here out rules pairs start
  refine ⟨budget, fun more hmore => ?_⟩
  obtain ⟨hconcludes, hsame⟩ := hends more hmore
  refine ⟨hconcludes, hsame, fun pair own hwithin side above below hcycle => ?_⟩
  exact hcycle.fails hnamed rfl hwithin

/-- A directory with a link in it that leads to the directory, and one with nothing in it. -/
def linkToAbove : Disk where
  nodes :=
    [([Bytes.ofString "src"], .directory), ([Bytes.ofString "dst"], .directory),
      ([Bytes.ofString "l", Bytes.ofString "src"], .link (.ofString "."))]

theorem resolve_linkToAbove :
    linkToAbove.resolve [] true (.ofString "src") = .ok [Bytes.ofString "src"] ∧
      linkToAbove.resolve [] true (.ofString "src/l") = .ok [Bytes.ofString "src"] ∧
      linkToAbove.resolve [] true (.ofString "dst") = .ok [Bytes.ofString "dst"] ∧
      linkToAbove.resolve [] true (.ofString "dst/l") = .error .noEntry ∧
      linkToAbove.resolve [] false (.ofString "dst/l") = .error .noEntry := by
  refine ⟨?_, ?_, ?_, ?_, ?_⟩
  all_goals exact resolve_of_followFor 10 (by decide +kernel) (by decide +kernel)

/-- A visit of a pair is logged, whatever comes of it. -/
theorem logged_step {pair : Pair} {source destination : Kind} (start : Run Unit τ)
    (htext : pair.IsText) (hsource : disk.classify here pair.source = .ok source)
    (hdestination : disk.classify here pair.destination = .ok destination) :
    .logged (.visiting source destination pair) ∈
      ((Walk.step rules (.visit pair false false)).run (disk.fileSystem here) out
        start).2.events.toList := by
  rw [Walk.step_visit htext]
  simp only [Walk.unchecked, Walk.kindAt, Bool.false_eq_true, if_false, Dialogue.run_bind,
    run_classify _ hsource, run_classify _ hdestination, Dialogue.run_log]
  refine (Dialogue.events_prefix_run _ _ _ _).subset ?_
  simp [Run.happened]

/-- Where both sides are directories, the visits of what they list come next. -/
theorem exists_run_step_of_lists {pair : Pair} {inSource inDestination : List Name}
    (start : Run Unit τ) (htext : pair.IsText) (hsource : disk.list here pair.source = .ok inSource)
    (hdestination : disk.list here pair.destination = .ok inDestination) :
    ∃ mid, (Walk.step rules (.visit pair false false)).run (disk.fileSystem here) out start =
      (.ok (Walk.visits pair .directory .directory
        (Walk.visible rules (inSource ++ inDestination)) ++
          [.resume pair .directory .directory []]), mid) := by
  obtain ⟨_, hsourceFind, -⟩ := exists_of_list hsource
  obtain ⟨_, hdestinationFind, -⟩ := exists_of_list hdestination
  have hsourceKind := isDirectory_classify ⟨_, hsourceFind⟩
  have hdestinationKind := isDirectory_classify ⟨_, hdestinationFind⟩
  have hrow : policy .directory .directory = [.recurse] := rfl
  rw [Walk.step_visit htext]
  simp [Walk.unchecked, Walk.kindAt, Walk.perform, Walk.childNames, Walk.entriesAt, hrow,
    Dialogue.run_bind, run_classify _ hsourceKind, run_classify _ hdestinationKind,
    run_list _ hsource, run_list _ hdestination]

/-- The first visits of a walk are those of the directory and of the link. -/
theorem visits_linkToAbove (budget : Nat) :
    let pair : Pair := ⟨.ofString "src", .ofString "dst"⟩
    let own := ((walk {} (budget + 2) pair).run (linkToAbove.fileSystem []) (.collect none)
      ⟨(), #[], {}, #[]⟩).2
    .visiting .directory .directory pair ∈ own.records ∧
      .visiting .directory .missing (pair.child (Bytes.ofString "l")) ∈ own.records := by
  intro pair own
  obtain ⟨hsrc, hsrcLink, hdst, hdstLink, hdstItself⟩ := resolve_linkToAbove
  have hsrcFind := find_of_resolve hsrc rfl
  have hdstFind := find_of_resolve hdst rfl
  have hsrcList : linkToAbove.list [] pair.source = .ok [Bytes.ofString "l"] := by
    rw [list, hsrcFind]
    exact congrArg Except.ok (by decide +kernel)
  have hdstList : linkToAbove.list [] pair.destination = .ok [] := by
    rw [list, hdstFind]
    exact congrArg Except.ok (by decide +kernel)
  have hmissing : linkToAbove.classify [] (.ofString "dst/l") = .ok .missing := by
    rw [classify, find_of_resolve_error hdstLink]
    simp only [hdstItself]
  have hchild : pair.child (Bytes.ofString "l") = ⟨.ofString "src/l", .ofString "dst/l"⟩ := by
    decide +kernel
  have hvisits : Walk.visits pair .directory .directory
      (Walk.visible {} ([Bytes.ofString "l"] ++ [])) =
        [.visit (pair.child (Bytes.ofString "l")) false false] := by
    decide +kernel
  obtain ⟨mid, hmid⟩ :=
    exists_run_step_of_lists ⟨(), #[], {}, #[]⟩ (by decide +kernel) hsrcList hdstList
  rw [hvisits] at hmid
  have hown : own = ((Walk.step {} (.visit pair false false) >>= fun first =>
      Walk.workOff {} (budget + 1) (first ++ [])).run (linkToAbove.fileSystem []) (.collect none)
        ⟨(), #[], {}, #[]⟩).2 := rfl
  constructor
  · refine mem_records_iff.mpr (hown ▸ (Dialogue.events_prefix_bind _ _ _).subset ?_)
    exact logged_step _ (by decide +kernel) (isDirectory_classify ⟨_, hsrcFind⟩)
      (isDirectory_classify ⟨_, hdstFind⟩)
  · rw [Dialogue.run_bind, hmid] at hown
    refine mem_records_iff.mpr (hown ▸ (Dialogue.events_prefix_bind _ _ _).subset ?_)
    refine logged_step mid (by decide +kernel) ?_ ?_
    · rw [hchild]
      exact isDirectory_classify ⟨_, find_of_resolve hsrcLink rfl⟩
    · rw [hchild]
      exact hmissing

/-- The link leads to the directory that it is in, and a synchronisation fails on it. -/
theorem cycles_end_in_failure_linkToAbove :
    let pair : Pair := ⟨.ofString "src", .ofString "dst"⟩
    let start : Run Unit (Array Command) := ⟨(), #[], {}, #[]⟩
    linkToAbove.Named ∧ ∃ budget, ∀ more, budget ≤ more →
      let outcome := (sync {} more [pair]).run (linkToAbove.fileSystem []) (.collect none) start
      let own := ((walk {} more pair).run (linkToAbove.fileSystem []) (.collect none) start).2
      (sync {} more [pair]).concludes (linkToAbove.fileSystem []) (.collect none) start = true ∧
        linkToAbove.Cycle [] .source pair own pair (pair.child (Bytes.ofString "l")) ∧
          ∃ failure, outcome.1 = .error failure := by
  intro pair start
  have hnamed : linkToAbove.Named := by decide +kernel
  obtain ⟨budget, hends⟩ := cycles_end_in_failure hnamed [] (.collect none) #[] {} [pair]
  refine ⟨hnamed, budget + 2, fun more hmore => ?_⟩
  obtain ⟨rest, rfl⟩ := Nat.exists_eq_add_of_le' (Nat.le_trans (Nat.le_add_left 2 budget) hmore)
  intro outcome own
  obtain ⟨hconcludes, -, hfails⟩ := hends (rest + 2) (by omega)
  obtain ⟨habove, hbelow⟩ := visits_linkToAbove rest
  obtain ⟨hsrc, hsrcLink, -⟩ := resolve_linkToAbove
  have hcycle : linkToAbove.Cycle [] .source pair own pair (pair.child (Bytes.ofString "l")) := by
    refine ⟨⟨_, _, habove, fun _ => rfl⟩, ⟨_, _, hbelow⟩, ?_, ?_⟩
    · exact ⟨Bytes.ofString "l", by decide +kernel, by decide +kernel⟩
    · refine ⟨[Bytes.ofString "src"], find_of_resolve hsrc rfl, ?_⟩
      have hchild : (pair.child (Bytes.ofString "l")).source = .ofString "src/l" := by
        decide +kernel
      show linkToAbove.find [] (pair.child (Bytes.ofString "l")).source = _
      rw [hchild]
      exact find_of_resolve hsrcLink rfl
  refine ⟨hconcludes, hcycle, ?_⟩
  exact hfails pair own (Sync.within_head pair [] () #[]) .source _ _ hcycle

end TreePlan.Disk

import TreePlan.Proofs.Conflict
import TreePlan.Proofs.Disk.Absence
import TreePlan.Proofs.Visits

/-!
# Walks over a disk

What a disk takes for missing a walk removes from the destination. So it matters that a walk is
right about every source it visits, the ones included that it does not ask about
(`classify_of_visited`), and that it cannot pass by a link that leads nowhere: it visits
whatever is listed, and fails there.

* `exists_visiting_of_remove`: nothing is removed for the sake of a link, unless it is blocked;
* `blocked_of_comesTo`: a synchronisation over a tree with any other link that leads nowhere fails;
* `run_sync_of_blocked`: a blocked link costs its counterpart.

The empty path names nothing, and yet the paths below it are looked up from where the program runs:
its children are no entries of it. So the sources of the pairs are not to be empty.
-/

namespace TreePlan.Disk

variable {disk : Disk} {here : Location} {rules : Rules} {budget : Nat} {τ : Type} {out : Sink τ}

/-! ## What a walk knows of what is there -/

theorem nodeName_of_gives (hnamed : disk.Named) (path : Path) (names : List Name)
    (h : (disk.fileSystem here).Gives (.list path) names) : ∀ name ∈ names, NodeName name := by
  obtain ⟨location, -, rfl⟩ := exists_of_list (gives_ofAnswers_iff.mp h)
  exact fun name => nodeName_of_mem_names hnamed

theorem segment_of_gives (hnamed : disk.Named) (path : Path) (names : List Name)
    (h : (disk.fileSystem here).Gives (.list path) names) : ∀ name ∈ names, Segment name :=
  fun name hname => (nodeName_of_gives hnamed path names h name hname).segment

/-- **A walk is right about what is there**, at either side, whether it has asked or not. -/
theorem classify_of_visited (side : Side) {pair : Pair} {steps : List (List Name × TreePlan.Step)}
    {ended : Bool} {rel : List Name} {source destination : Kind} {followLast : Bool}
    {location : Location}
    (h : Course (disk.fileSystem here).Gives rules pair false false steps ended)
    (hnamed : disk.Named) (hpair : pair.on side ≠ .empty)
    (hvisited : (rel, .visited source destination) ∈ steps)
    (hresolve : disk.resolve here followLast ((pair.on side).below rel) = .ok location) :
    disk.classify here ((pair.on side).below rel) = .ok (side.pick source destination) := by
  -- What has an entry is a directory, and that is what the walk has found it to be.
  induction rel using List.reverseRecOn generalizing source destination followLast location with
  | nil =>
      have hfound := h.found hvisited
      cases side with
      | source => exact gives_ofAnswers_iff.mp hfound.1
      | destination => exact gives_ofAnswers_iff.mp hfound.2
  | append_singleton rel name ih =>
      have hsegments := h.segments (segment_of_gives hnamed) hvisited
      have hrel : ∀ n ∈ rel, Segment n := fun n hn => hsegments n (List.mem_append_left _ hn)
      have hname : Segment name := hsegments name (by simp)
      obtain ⟨above, beside, hparent⟩ := h.exists_visited hvisited
      rw [Path.below_concat] at hresolve ⊢
      have hdirectory : disk.IsDirectory here ((pair.on side).below rel) :=
        isDirectory_of_child hname (Path.below_ne_empty hpair hrel) hresolve
      obtain ⟨dir, hfind⟩ := hdirectory
      have habove : Except.ok (side.pick above beside) = (.ok .directory : Except Failure Kind) :=
        (ih hparent (resolve_of_find hfind).1).symm.trans (isDirectory_classify ⟨dir, hfind⟩)
      have hfound := h.found_child hparent hvisited
      cases side with
      | source =>
          cases habove
          exact gives_ofAnswers_iff.mp hfound.1
      | destination =>
          cases habove
          exact gives_ofAnswers_iff.mp hfound.2

theorem exists_resolve_of_itself {path : Path} (h : disk.itself? here path ≠ none) :
    ∃ location, disk.resolve here false path = .ok location := by
  obtain ⟨node, hnode⟩ := Option.ne_none_iff_exists'.mp h
  obtain ⟨location, hresolve, -⟩ := itself_eq_some_iff.mp hnode
  exact ⟨location, hresolve⟩

/-! ## Synchronisations -/

section
variable {pairs : List Pair} {sink : τ} {result : Except Failure Report} {finish : Run Unit τ}
  (hnamed : disk.Named) (hsources : ∀ pair ∈ pairs, pair.source ≠ .empty)
  (hrun : (sync rules budget pairs).run (disk.fileSystem here) out ⟨(), sink, {}, #[]⟩ =
    (result, finish))
include hrun

section
include hnamed hsources

theorem classify_of_visiting {source destination : Kind} {place : Pair} {followLast : Bool}
    {location : Location}
    (hvisiting : .logged (.visiting source destination place) ∈ finish.events.toList)
    (hresolve : disk.resolve here followLast place.source = .ok location) :
    disk.classify here place.source = .ok source := by
  have hof : (Event.logged (.visiting source destination place)).OfWalk := trivial
  obtain ⟨pair, own, hwithin, hmem⟩ := Sync.exists_within hof hrun hvisiting
  obtain ⟨steps, ended, hcourse, hfollows⟩ := hwithin.exists_course
  obtain ⟨rel, hvisited, rfl⟩ := (hfollows.visits _ _ _).mp (mem_records_iff.mpr hmem)
  exact classify_of_visited .source hcourse hnamed (hsources pair hwithin.mem) hvisited hresolve

/-- **What is removed** is the counterpart of a place that was visited, and at the source of that
there is nothing, or a blocked link, or something of another kind. -/
theorem exists_visiting_of_remove {path : Path} {recursive : Bool}
    (hremove : .remove path recursive ∈ finish.commands) :
    ∃ source destination place, .visiting source destination place ∈ finish.records ∧
      place.destination = path ∧ source ≠ destination ∧
        (disk.itself? here place.source = none ∨ disk.Blocked here place.source ∨
          (disk.classify here place.source = .ok source ∧ source ≠ .missing)) := by
  have hof : (Event.emitted (.remove path recursive)).OfWalk := rfl
  obtain ⟨pair, own, hwithin, hown⟩ := Sync.exists_within hof hrun (mem_commands_iff.mp hremove)
  obtain ⟨files, start, hisRun⟩ := hwithin.isRun
  obtain ⟨source, destination, place, hlogged, hplace, hdiffers, -⟩ :=
    exists_visited_of_removed hisRun hown
  have hvisiting := hwithin.subset hlogged
  refine ⟨source, destination, place, mem_records_iff.mpr hvisiting, hplace, hdiffers, ?_⟩
  by_cases hentry : disk.itself? here place.source = none
  · exact .inl hentry
  obtain ⟨location, hresolve⟩ := exists_resolve_of_itself hentry
  have hclassify := classify_of_visiting hnamed hsources hrun hvisiting hresolve
  by_cases hmissing : source = .missing
  · -- the link itself was taken for nothing
    exact .inr (.inl (classify_missing_iff.mp ⟨hmissing ▸ hclassify, hentry⟩))
  · exact .inr (.inr ⟨hclassify, hmissing⟩)

end

/-- The paths that a walk comes to from `root`, if it does not end early: from each directory those
of its entries, unless their names are passed over. -/
inductive ComesTo (disk : Disk) (here : Location) (rules : Rules) (root : Path) : Path → Prop
  | root : ComesTo disk here rules root root
  | entry {dir : Path} {names : List Name} {name : Name} (hdir : ComesTo disk here rules root dir)
      (hlist : disk.list here dir = .ok names) (hname : name ∈ names)
      (hvisible : name ∉ rules.metadataNames) : ComesTo disk here rules root (dir.child name)

section
include hnamed hsources

theorem exists_visiting_of_comesTo {report : Report} (hok : result = .ok report) {pair : Pair}
    (hpair : pair ∈ pairs) {path : Path} (h : disk.ComesTo here rules pair.source path) :
    ∃ source destination place, place.source = path ∧
      .logged (.visiting source destination place) ∈ finish.events.toList := by
  subst hok
  obtain ⟨hroots, hbelow⟩ := Sync.visits_of_ok hrun
  induction h with
  | root =>
      obtain ⟨source, destination, hmem⟩ := hroots pair hpair
      exact ⟨source, destination, pair, rfl, hmem⟩
  | @entry dir names name _ hlist hname hvisible ih =>
      obtain ⟨source, destination, place, rfl, hmem⟩ := ih
      -- What can be listed is a directory, and was found to be one.
      obtain ⟨location, hfind, -⟩ := exists_of_list hlist
      have hkind : Except.ok source = (.ok .directory : Except Failure Kind) :=
        (classify_of_visiting hnamed hsources hrun hmem (resolve_of_find hfind).1).symm.trans
          (isDirectory_classify ⟨location, hfind⟩)
      cases hkind
      obtain ⟨kind, other, hchild, -⟩ :=
        (hbelow _ destination place hmem).exists_visit .source rfl hlist hname hvisible
      exact ⟨kind, other, place.child name, rfl, hchild⟩

/-- **A synchronisation that succeeds has come to no link that leads nowhere**, unless it is
blocked. -/
theorem blocked_of_comesTo {report : Report} (hok : result = .ok report) {pair : Pair}
    (hpair : pair ∈ pairs) {path : Path} (h : disk.ComesTo here rules pair.source path)
    (hstranded : disk.Stranded here path) : disk.Blocked here path := by
  obtain ⟨source, destination, place, rfl, hmem⟩ :=
    exists_visiting_of_comesTo hnamed hsources hrun hok hpair h
  obtain ⟨target, hentry⟩ := hstranded.link
  obtain ⟨location, hresolve⟩ := exists_resolve_of_itself (hentry ▸ Option.some_ne_none _)
  have hclassify := classify_of_visiting hnamed hsources hrun hmem hresolve
  refine (blocked_or_fails_of_stranded hstranded).resolve_right ?_
  rintro ⟨failure, hfails⟩
  rw [hclassify] at hfails
  cases hfails

end

/-- A link that leads nowhere ends the run once it is asked about, unless it is blocked. -/
theorem fails_of_stranded {path : Path} (hasked : .classify path ∈ finish.queries)
    (hstranded : disk.Stranded here path) (hblocked : ¬ disk.Blocked here path) :
    ∃ failure, disk.classify here path = .error failure ∧ result = .error failure := by
  obtain ⟨failure, hfails⟩ := (blocked_or_fails_of_stranded hstranded).resolve_left hblocked
  refine ⟨failure, hfails, ?_⟩
  have hevent : .asked (.classify path) ∈ ((sync rules budget pairs).run
      (.ofAnswers (disk.answer here)) out ⟨(), sink, {}, #[]⟩).2.events.toList :=
    congrArg Prod.snd hrun ▸ mem_queries_iff.mp hasked
  have hends := (sync rules budget pairs).fails_of_asked hevent hfails
  exact (congrArg Prod.fst hrun).symm.trans (hends.resolve_left List.not_mem_nil)

end

/-! ## Blocked links -/

theorem run_emit_collect {σ : Type} {fs : FileSystem σ} (command : Command)
    (start : Run σ (Array Command)) :
    (Dialogue.emit command).run fs (.collect none) start = (.ok (),
      { start with
        sink := start.sink.push command
        session := start.session.countEmitted
        events := start.events.push (.emitted command) }) := by
  rw [Dialogue.emit, Dialogue.run_request]
  rfl

/-- A query that a disk answers leaves nothing but its event. -/
theorem run_ask {q : Query} {answer : q.Answer} (start : Run Unit τ)
    (h : disk.answer here q = .ok answer) :
    (Dialogue.request (.ask q)).run (disk.fileSystem here) out start =
      (.ok answer, { start with events := start.events.push (.asked q) }) := by
  rw [Dialogue.run_request]
  show (disk.answer here q, _) = _
  rw [h]

theorem run_classify {path : Path} {kind : Kind} (start : Run Unit τ)
    (h : disk.classify here path = .ok kind) :
    (Dialogue.classify path).run (disk.fileSystem here) out start =
      (.ok kind, { start with events := start.events.push (.asked (.classify path)) }) :=
  run_ask start h

theorem run_list {path : Path} {names : List Name} (start : Run Unit τ)
    (h : disk.list here path = .ok names) :
    (Dialogue.list path).run (disk.fileSystem here) out start =
      (.ok names, { start with events := start.events.push (.asked (.list path)) }) :=
  run_ask start h

/-- A synchronisation begins with the source of its first pair. -/
theorem asked_sync {pair : Pair} (pairs : List Pair) {σ : Type} {fs : FileSystem σ}
    (htext : pair.IsText) (start : Run σ τ) :
    .asked (.classify pair.source) ∈
      ((sync rules (budget + 1) (pair :: pairs)).run fs out start).2.events.toList := by
  have hask : ∀ logged : Run σ τ, .asked (.classify pair.source) ∈
      ((Dialogue.classify pair.source).run fs out logged).2.events.toList := by
    intro logged
    rw [Dialogue.classify, Dialogue.run_request]
    simp [Run.reply]
  refine Sync.walk_events_subset pair pairs start ?_
  rw [walk, Walk.workOff, Walk.step_visit htext]
  refine (Dialogue.events_prefix_bind _ _ _).subset ?_
  exact (Dialogue.events_prefix_bind _ _ _).subset (hask _)

/-- **A blocked link costs its counterpart**: it is removed, and the version control is told. -/
theorem run_sync_of_blocked {pair : Pair} (hsource : disk.Blocked here pair.source)
    (hdestination : disk.classify here pair.destination = .ok .file) (htext : pair.IsText) :
    let outcome := (sync rules (budget + 1) [pair]).run (disk.fileSystem here) (.collect none)
      ⟨(), #[], {}, #[]⟩
    outcome.1.isOk = true ∧
      outcome.2.commands = [.remove pair.destination false, .delete [pair.destination]] := by
  have hmissing : disk.classify here pair.source = .ok .missing :=
    (classify_missing_iff.mpr hsource).1
  -- The row of a missing source and a file holds all that there is to do.
  have hrow : policy .missing .file = [.remove, .queueDelete] := rfl
  simp [sync, Sync.walkAll, walk, Walk.workOff, Walk.perform, Sync.batches, Sync.emitAll,
    Walk.step_visit htext, Walk.unchecked, Walk.kindAt, hrow, Dialogue.run_bind,
    run_classify _ hmissing, run_classify _ hdestination, run_emit_collect, Run.happened,
    Run.commands, Session.note, Session.countEmitted, Except.isOk, Except.toBool]

/-! ## What is overlooked -/

/-- **Exactly the blocked links are overlooked.** -/
theorem overlooks_exactly_blocked (disk : Disk) (here : Location) :
    -- Of all that is at a path, blocked links and nothing else are taken for missing.
    (∀ path, disk.classify here path = .ok .missing ∧ disk.itself? here path ≠ none ↔
      disk.Blocked here path) ∧
    (disk.Named →
      -- So it is for all that a directory lists.
      (∀ dir names, disk.list here dir = .ok names → ∀ name ∈ names,
        disk.classify here (dir.child name) = .ok .missing → disk.Blocked here (dir.child name)) ∧
      ∀ {τ : Type} (out : Sink τ) (sink : τ) (rules : Rules) (budget : Nat) (pairs : List Pair),
        (∀ pair ∈ pairs, pair.source ≠ .empty) →
          let outcome := (sync rules budget pairs).run (disk.fileSystem here) out
            ⟨(), sink, {}, #[]⟩
          -- No link but a blocked one makes a synchronisation remove anything.
          (∀ path recursive, .remove path recursive ∈ outcome.2.commands →
            ∃ source destination place, .visiting source destination place ∈ outcome.2.records ∧
              place.destination = path ∧ source ≠ destination ∧
                (disk.itself? here place.source = none ∨ disk.Blocked here place.source ∨
                  (disk.classify here place.source = .ok source ∧ source ≠ .missing))) ∧
          -- Any other link that leads nowhere ends it, and it comes to every link.
          (∀ path, .classify path ∈ outcome.2.queries → disk.Stranded here path →
            ¬ disk.Blocked here path →
              ∃ failure, disk.classify here path = .error failure ∧ outcome.1 = .error failure) ∧
          (outcome.1.isOk = true → ∀ pair ∈ pairs, ∀ path,
            disk.ComesTo here rules pair.source path → disk.Stranded here path →
              disk.Blocked here path)) ∧
    -- A blocked link costs its counterpart.
    ∀ (rules : Rules) (budget : Nat) (pair : Pair), disk.Blocked here pair.source →
      disk.classify here pair.destination = .ok .file → pair.IsText →
        let outcome := (sync rules (budget + 1) [pair]).run (disk.fileSystem here) (.collect none)
          ⟨(), #[], {}, #[]⟩
        outcome.1.isOk = true ∧
          outcome.2.commands = [.remove pair.destination false, .delete [pair.destination]] := by
  refine ⟨fun path => classify_missing_iff, fun hnamed => ⟨?_, ?_⟩, ?_⟩
  · exact fun dir names hlist name hname => blocked_of_listed hnamed hlist hname
  · intro τ out sink rules budget pairs hsources outcome
    have hrun : (sync rules budget pairs).run (disk.fileSystem here) out ⟨(), sink, {}, #[]⟩ =
      (outcome.1, outcome.2) := rfl
    refine ⟨?_, ?_, ?_⟩
    · exact fun path recursive => exists_visiting_of_remove hnamed hsources hrun
    · exact fun path => fails_of_stranded hrun
    · intro hok pair hpair path
      obtain ⟨report, hreport⟩ : ∃ report, outcome.1 = .ok report := by
        rcases hcase : outcome.1 with failure | report
        · rw [hcase] at hok
          cases hok
        · exact ⟨report, rfl⟩
      exact blocked_of_comesTo hnamed hsources hrun hreport hpair
  · exact fun rules budget pair => run_sync_of_blocked

/-- Two directories with the same names in them. At one side, `l` is a link with a file in the
middle of its target, and `d` a link to nothing. -/
def twoLinks : Disk where
  nodes :=
    [([Bytes.ofString "src"], .directory), ([Bytes.ofString "dst"], .directory),
      ([Bytes.ofString "f", Bytes.ofString "src"], .file []),
      ([Bytes.ofString "l", Bytes.ofString "src"], .link (.ofString "f/x")),
      ([Bytes.ofString "d", Bytes.ofString "src"], .link (.ofString "x")),
      ([Bytes.ofString "l", Bytes.ofString "dst"], .file []),
      ([Bytes.ofString "d", Bytes.ofString "dst"], .file [])]

/-- Where the paths of the links lead, as they are and with the links followed. -/
theorem resolve_twoLinks :
    twoLinks.resolve [] false (.ofString "src/l") =
        .ok [Bytes.ofString "l", Bytes.ofString "src"] ∧
      twoLinks.resolve [] true (.ofString "src/l") = .error .notDirectory ∧
      twoLinks.resolve [] false (.ofString "src/d") =
        .ok [Bytes.ofString "d", Bytes.ofString "src"] ∧
      twoLinks.resolve [] true (.ofString "src/d") = .error .noEntry ∧
      twoLinks.resolve [] true (.ofString "src") = .ok [Bytes.ofString "src"] ∧
      twoLinks.resolve [] true (.ofString "dst/l") =
        .ok [Bytes.ofString "l", Bytes.ofString "dst"] := by
  refine ⟨?_, ?_, ?_, ?_, ?_, ?_⟩
  all_goals exact resolve_of_followFor 10 (by decide +kernel) (by decide +kernel)

theorem blocked_twoLinks : twoLinks.Blocked [] (.ofString "src/l") := by
  obtain ⟨hentry, hfind, -⟩ := resolve_twoLinks
  have hlink := itself_eq_some_iff.mpr ⟨_, hentry, rfl⟩
  exact ⟨⟨.ofString "f/x", hlink⟩, find_of_resolve_error hfind⟩

theorem stranded_twoLinks : twoLinks.Stranded [] (.ofString "src/d") := by
  obtain ⟨-, -, hentry, hfind, -⟩ := resolve_twoLinks
  have hlink := itself_eq_some_iff.mpr ⟨_, hentry, rfl⟩
  exact ⟨⟨.ofString "x", hlink⟩, ⟨.noEntry, find_of_resolve_error hfind⟩⟩

/-- The blocked link is overlooked, and costs its counterpart; the other one is not. -/
theorem overlooks_exactly_blocked_twoLinks :
    let blocked : Pair := ⟨.ofString "src/l", .ofString "dst/l"⟩
    let stranded : Pair := ⟨.ofString "src/d", .ofString "dst/d"⟩
    let lost := (sync {} 1 [blocked]).run (twoLinks.fileSystem []) (.collect none)
      ⟨(), #[], {}, #[]⟩
    let ended := (sync {} 1 [stranded]).run (twoLinks.fileSystem []) (.collect none)
      ⟨(), #[], {}, #[]⟩
    twoLinks.classify [] (.ofString "src/l") = .ok .missing ∧
      (∃ names, twoLinks.list [] (.ofString "src") = .ok names ∧ Bytes.ofString "l" ∈ names ∧
        twoLinks.Blocked [] ((Path.ofString "src").child (Bytes.ofString "l"))) ∧
      lost.2.commands = [.remove (.ofString "dst/l") false, .delete [.ofString "dst/l"]] ∧
      (∃ source destination place, .visiting source destination place ∈ lost.2.records ∧
        place.destination = .ofString "dst/l" ∧ source ≠ destination ∧
          (twoLinks.itself? [] place.source = none ∨ twoLinks.Blocked [] place.source ∨
            (twoLinks.classify [] place.source = .ok source ∧ source ≠ .missing))) ∧
      ∃ failure, twoLinks.classify [] (.ofString "src/d") = .error failure ∧
        ended.1 = .error failure := by
  intro blocked stranded lost ended
  obtain ⟨hmissing, hnamed, hcosts⟩ := overlooks_exactly_blocked twoLinks []
  obtain ⟨hlisted, hsyncs⟩ := hnamed (by decide +kernel)
  obtain ⟨-, -, hd, hfind, hdir, hfile⟩ := resolve_twoLinks
  have hl := (hmissing _).mpr blocked_twoLinks
  have hdestination : twoLinks.classify [] (.ofString "dst/l") = .ok .file := by
    rw [classify, find_of_resolve hfile rfl]
    rfl
  obtain ⟨-, hcommands⟩ := hcosts {} 0 blocked blocked_twoLinks hdestination (by decide +kernel)
  have hlist : twoLinks.list [] (.ofString "src") =
      .ok (twoLinks.names [Bytes.ofString "src"]) := by
    rw [list, find_of_resolve hdir rfl]
  have hmem : Bytes.ofString "l" ∈ twoLinks.names [Bytes.ofString "src"] := by decide +kernel
  have hchild : (Path.ofString "src").child (Bytes.ofString "l") = .ofString "src/l" := by
    decide +kernel
  refine ⟨hl.1, ⟨_, hlist, hmem, ?_⟩, hcommands, ?_, ?_⟩
  · exact hlisted _ _ hlist _ hmem (hchild ▸ hl.1)
  · have hremoved : .remove (.ofString "dst/l") false ∈ lost.2.commands :=
      hcommands ▸ List.mem_cons_self
    refine (hsyncs (.collect none) #[] {} 1 [blocked] ?_).1 _ _ hremoved
    decide +kernel
  · refine (hsyncs (.collect none) #[] {} 1 [stranded] ?_).2.1 _ ?_ stranded_twoLinks ?_
    · decide +kernel
    · exact mem_queries_iff.mpr (asked_sync [] (by decide +kernel) _)
    · rintro ⟨-, hblocked⟩
      rw [find_of_resolve_error hfind] at hblocked
      cases hblocked

end TreePlan.Disk

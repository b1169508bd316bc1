import TreePlan.Proofs.Forest.Outcome
import TreePlan.Proofs.Requests
import TreePlan.Proofs.Volume

/-!
# A walk computes the difference of two trees

The difference of the two sides of a pair is described place by place, with no word on the
order in which places are visited or on how they are reached: what the kinds at one place
demand is a matter of this place alone.

* `Forest.Demands` and `Forest.Difference` are that description.
* `Forest.walk_computes_difference`: over a forest a walk succeeds, and what it hands to the
  sink and what it notes is the difference, each part of it once.
-/

namespace TreePlan

/-- A sink that keeps every command keeps the commands of the run. -/
theorem Dialogue.kept_eq_commands {σ α : Type} {fs : FileSystem σ} {d : Dialogue α}
    {start finish : Run σ (Array Command)} {result : Except Failure α}
    (hrun : d.run fs (.collect none) start = (result, finish))
    (h : start.sink.toList = start.commands) : finish.sink.toList = finish.commands := by
  have hreply : ∀ r, True → ∀ run : Run σ (Array Command), run.sink.toList = run.commands →
      (Run.reply fs (.collect none) r run).2.sink.toList =
        (Run.reply fs (.collect none) r run).2.commands := by
    intro r _ run _
    cases r <;> simp_all [Run.reply, Sink.collect, Run.commands, Run.happened]
  have hkept := d.only_true.keeps
    (fun run : Run σ (Array Command) => run.sink.toList = run.commands) hreply h
  rwa [hrun] at hkept

namespace Forest

/-! ## The difference -/

/-- The commands that the kinds and contents at the place of `rel` demand. -/
inductive Demands (forest : Forest) (pair : Pair) (rel : List Name) : Command → Prop
  /-- What is in the place of something else, or of nothing, has to go. -/
  | remove
    (hd : forest.kind (pair.destination.below rel) ≠ .missing)
    (hne : forest.kind (pair.source.below rel) ≠ forest.kind (pair.destination.below rel)) :
    Demands forest pair rel (.remove (pair.destination.below rel)
      (forest.kind (pair.destination.below rel) = .directory))
  /-- A directory has to be where one is at the source. -/
  | mkdir
    (hs : forest.kind (pair.source.below rel) = .directory)
    (hd : forest.kind (pair.destination.below rel) ≠ .directory) :
    Demands forest pair rel (.mkdir (pair.destination.below rel))
  /-- A file has to be a copy of the one at the source. -/
  | copy
    (hs : forest.kind (pair.source.below rel) = .file)
    (hd : forest.kind (pair.destination.below rel) ≠ .file ∨
      forest.contents (pair.source.below rel) ≠ forest.contents (pair.destination.below rel)) :
    Demands forest pair rel (.copy (pair.source.below rel) (pair.destination.below rel))

/-- The commands and the notes are the difference of the two sides of a pair. -/
structure Difference (forest : Forest) (rules : Rules) (pair : Pair) (commands : List Command)
    (session : Session) : Prop where
  nodup_commands : commands.Nodup
  mem_commands : ∀ command, command ∈ commands ↔
    ∃ rel, forest.Plain rules rel ∧ forest.Demands pair rel command
  nodup_deletes : session.deletes.toList.Nodup
  mem_deletes : ∀ path, path ∈ session.deletes.toList ↔
    ∃ rel, forest.Plain rules rel ∧ path = pair.destination.below rel ∧
      forest.kind (pair.destination.below rel) ≠ .missing ∧
      forest.kind (pair.source.below rel) ≠ forest.kind (pair.destination.below rel)
  nodup_adds : session.adds.toList.Nodup
  mem_adds : ∀ path, path ∈ session.adds.toList ↔
    ∃ rel, forest.Plain rules rel ∧ path = pair.destination.below rel ∧
      forest.kind (pair.source.below rel) ≠ .missing ∧
      forest.kind (pair.source.below rel) ≠ forest.kind (pair.destination.below rel)
  conflict : session.conflict = true ↔
    ∃ rel, forest.Plain rules rel ∧
      ((forest.kind (pair.source.below rel) = .file ∧
          forest.kind (pair.destination.below rel) = .directory) ∨
        (forest.kind (pair.source.below rel) = .directory ∧
          forest.kind (pair.destination.below rel) = .file))

variable {forest : Forest} {rules : Rules} {pair : Pair} {depth : Nat}

/-! ## The commands of the steps -/

theorem command?_eq_some {rel : List Name} {action : Action} {command : Command} :
    forest.command? pair (rel, action) = some command ↔
      (action = .remove ∧ command = .remove (pair.destination.below rel)
          (forest.kind (pair.destination.below rel) = .directory)) ∨
        (action = .mkdir ∧ command = .mkdir (pair.destination.below rel)) ∨
        ((action = .copy ∨ (action = .copyIfDifferent ∧ forest.contents (pair.source.below rel) ≠
            forest.contents (pair.destination.below rel))) ∧
          command = .copy (pair.source.below rel) (pair.destination.below rel)) := by
  cases action with
  | copyIfDifferent =>
      by_cases heq :
          forest.contents (pair.source.below rel) = forest.contents (pair.destination.below rel)
      · simp [command?, heq]
      · simp [command?, heq, eq_comm]
  | _ => simp [command?, eq_comm]

/-- The steps that change files are those that the place demands. -/
theorem demands_iff (h : forest.CoversPair pair) (hdepth : forest.Shallow depth pair)
    {command : Command} :
    command ∈ (forest.steps rules depth pair).filterMap (forest.command? pair) ↔
      ∃ rel, forest.Plain rules rel ∧ forest.Demands pair rel command := by
  rw [List.mem_filterMap]
  constructor
  · -- every step that changes a file is demanded
    rintro ⟨⟨rel, action⟩, hstep, hcommand⟩
    obtain ⟨hrel, -, haction⟩ := (mem_steps hdepth h).mp hstep
    refine ⟨rel, hrel, ?_⟩
    rcases command?_eq_some.mp hcommand with ⟨rfl, rfl⟩ | ⟨rfl, rfl⟩ | ⟨rfl | ⟨rfl, hne⟩, rfl⟩
    · obtain ⟨hd, hne⟩ := (remove_mem_policy_iff _ _).mp haction
      exact .remove hd hne
    · obtain ⟨hs, hd⟩ := (mkdir_mem_policy_iff _ _).mp haction
      exact .mkdir hs hd
    · obtain ⟨hs, hd⟩ := (copy_mem_policy_iff _ _).mp haction
      exact .copy hs (.inl hd)
    · obtain ⟨hs, -⟩ := (copyIfDifferent_mem_policy_iff _ _).mp haction
      exact .copy hs (.inr hne)
  · -- every demand is met by a step
    rintro ⟨rel, hrel, hdemands⟩
    cases hdemands with
    | remove hd hne =>
        refine ⟨(rel, .remove), (mem_steps hdepth h).mpr ⟨hrel, nofun, ?_⟩, rfl⟩
        exact (remove_mem_policy_iff _ _).mpr ⟨hd, hne⟩
    | mkdir hs hd =>
        refine ⟨(rel, .mkdir), (mem_steps hdepth h).mpr ⟨hrel, nofun, ?_⟩, rfl⟩
        exact (mkdir_mem_policy_iff _ _).mpr ⟨hs, hd⟩
    | copy hs hd =>
        by_cases hfile : forest.kind (pair.destination.below rel) = .file
        · -- over a file it is copied only where they differ
          have hne := hd.resolve_left fun hnot => hnot hfile
          refine ⟨(rel, .copyIfDifferent), (mem_steps hdepth h).mpr ⟨hrel, nofun, ?_⟩, ?_⟩
          · exact (copyIfDifferent_mem_policy_iff _ _).mpr ⟨hs, hfile⟩
          · exact command?_eq_some.mpr (.inr (.inr ⟨.inr ⟨rfl, hne⟩, rfl⟩))
        · refine ⟨(rel, .copy), (mem_steps hdepth h).mpr ⟨hrel, nofun, ?_⟩, rfl⟩
          exact (copy_mem_policy_iff _ _).mpr ⟨hs, hfile⟩

theorem destinationOf?_eq_some {rel : List Name} {action taken : Action} {path : Path} :
    pair.destinationOf? action (rel, taken) = some path ↔
      taken = action ∧ path = pair.destination.below rel := by
  simp [Pair.destinationOf?, eq_comm]

/-- Which of the two actions that copy a row can have depends on the destination alone. -/
theorem copy_or_copyIfDifferent {source destination : Kind} {action : Action}
    (h : action ∈ policy source destination) (hcopy : action = .copy ∨ action = .copyIfDifferent) :
    action = if destination = .file then .copyIfDifferent else .copy := by
  rcases hcopy with rfl | rfl
  · rw [if_neg ((copy_mem_policy_iff _ _).mp h).2]
  · rw [if_pos ((copyIfDifferent_mem_policy_iff _ _).mp h).2]

/-- What is taken from the steps is taken once if it tells the steps apart. -/
theorem nodup_filterMap_steps {α : Type} {f : List Name × Action → Option α}
    (h : forest.CoversPair pair) (hdepth : forest.Shallow depth pair)
    (hf : ∀ xs ys a b x, forest.Plain rules xs → forest.Plain rules ys →
      a ∈ policy (forest.kind (pair.source.below xs)) (forest.kind (pair.destination.below xs)) →
      b ∈ policy (forest.kind (pair.source.below ys)) (forest.kind (pair.destination.below ys)) →
      f (xs, a) = some x → f (ys, b) = some x → xs = ys ∧ a = b) :
    ((forest.steps rules depth pair).filterMap f).Nodup := by
  rw [List.Nodup, List.pairwise_filterMap]
  refine List.Pairwise.imp_of_mem ?_ (nodup_steps depth pair)
  -- Two steps that yield the same are one step to `f`, and no step is taken twice.
  rintro ⟨xs, a⟩ ⟨ys, b⟩ hx hy hne x hfx _ hfy rfl
  obtain ⟨hxs, -, ha⟩ := (mem_steps hdepth h).mp hx
  obtain ⟨hys, -, hb⟩ := (mem_steps hdepth h).mp hy
  obtain ⟨rfl, rfl⟩ := hf xs ys a b x hxs hys ha hb hfx hfy
  exact hne rfl

/-- A place is told by its path. -/
theorem Plain.below_inj {xs ys : List Name} (hxs : forest.Plain rules xs)
    (hys : forest.Plain rules ys) (base : Path) (h : base.below xs = base.below ys) : xs = ys :=
  Path.below_inj base (fun name hname => (hxs.entryName name hname).segment)
    (fun name hname => (hys.entryName name hname).segment) h

theorem nodup_commands (h : forest.CoversPair pair) (hdepth : forest.Shallow depth pair) :
    ((forest.steps rules depth pair).filterMap (forest.command? pair)).Nodup := by
  refine nodup_filterMap_steps h hdepth fun xs ys a b command hxs hys ha hb hx hy => ?_
  rw [command?_eq_some] at hx hy
  -- Equal commands are of one sort and name one place.
  rcases hx with ⟨rfl, rfl⟩ | ⟨rfl, rfl⟩ | ⟨hxa, rfl⟩
  · rcases hy with ⟨rfl, heq⟩ | ⟨-, heq⟩ | ⟨-, heq⟩
    · exact ⟨hxs.below_inj hys _ (Command.remove.inj heq).1, rfl⟩
    · cases heq
    · cases heq
  · rcases hy with ⟨-, heq⟩ | ⟨rfl, heq⟩ | ⟨-, heq⟩
    · cases heq
    · exact ⟨hxs.below_inj hys _ (Command.mkdir.inj heq), rfl⟩
    · cases heq
  · rcases hy with ⟨-, heq⟩ | ⟨-, heq⟩ | ⟨hyb, heq⟩
    · cases heq
    · cases heq
    · obtain rfl := hxs.below_inj hys _ (Command.copy.inj heq).2
      refine ⟨rfl, ?_⟩
      -- One row has only one of the two actions that copy.
      rw [copy_or_copyIfDifferent ha (hxa.imp_right And.left),
        copy_or_copyIfDifferent hb (hyb.imp_right And.left)]

theorem nodup_destinations (h : forest.CoversPair pair) (hdepth : forest.Shallow depth pair)
    (action : Action) :
    ((forest.steps rules depth pair).filterMap (pair.destinationOf? action)).Nodup := by
  refine nodup_filterMap_steps h hdepth fun xs ys a b path hxs hys _ _ hx hy => ?_
  rw [destinationOf?_eq_some] at hx hy
  obtain ⟨rfl, rfl⟩ := hx
  obtain ⟨rfl, heq⟩ := hy
  exact ⟨hxs.below_inj hys _ heq, rfl⟩

/-- The paths of the steps with one action are those of the places whose row has it. -/
theorem mem_destinations (h : forest.CoversPair pair) (hdepth : forest.Shallow depth pair)
    {action : Action} (hr : action ≠ .recurse) {path : Path} :
    path ∈ (forest.steps rules depth pair).filterMap (pair.destinationOf? action) ↔
      ∃ rel, forest.Plain rules rel ∧ path = pair.destination.below rel ∧
        action ∈ policy (forest.kind (pair.source.below rel))
          (forest.kind (pair.destination.below rel)) := by
  rw [List.mem_filterMap]
  constructor
  · rintro ⟨⟨rel, taken⟩, hstep, hpath⟩
    obtain ⟨rfl, rfl⟩ := destinationOf?_eq_some.mp hpath
    obtain ⟨hrel, -, haction⟩ := (mem_steps hdepth h).mp hstep
    exact ⟨rel, hrel, rfl, haction⟩
  · rintro ⟨rel, hrel, rfl, haction⟩
    exact ⟨(rel, action), (mem_steps hdepth h).mpr ⟨hrel, hr, haction⟩,
      destinationOf?_eq_some.mpr ⟨rfl, rfl⟩⟩

/-! ## The walk -/

/-- Steps taken from the start of a run on are the difference. -/
theorem difference_of_takes {τ : Type} {start finish : Run Unit τ} (h : forest.CoversPair pair)
    (hdepth : forest.Shallow depth pair) (hcommands : start.commands = [])
    (hsession : start.session = {})
    (htakes : forest.Takes pair (forest.steps rules depth pair) start finish) :
    forest.Difference rules pair finish.commands finish.session where
  nodup_commands := by
    rw [htakes.commands, hcommands]
    exact nodup_commands h hdepth
  mem_commands command := by
    rw [htakes.commands, hcommands]
    exact demands_iff h hdepth
  nodup_deletes := by
    rw [htakes.deletes, hsession]
    exact nodup_destinations h hdepth .queueDelete
  mem_deletes path := by
    rw [htakes.deletes, hsession]
    simp only [← queueDelete_mem_policy_iff]
    exact mem_destinations h hdepth (by decide : Action.queueDelete ≠ .recurse)
  nodup_adds := by
    rw [htakes.adds, hsession]
    exact nodup_destinations h hdepth .queueAdd
  mem_adds path := by
    rw [htakes.adds, hsession]
    simp only [← queueAdd_mem_policy_iff]
    exact mem_destinations h hdepth (by decide : Action.queueAdd ≠ .recurse)
  conflict := by
    rw [htakes.conflict, hsession]
    simp only [← flagConflict_mem_policy_iff, Bool.false_or, List.any_eq_true,
      decide_eq_true_eq]
    constructor
    · rintro ⟨⟨rel, _⟩, hstep, rfl⟩
      obtain ⟨hrel, -, haction⟩ := (mem_steps hdepth h).mp hstep
      exact ⟨rel, hrel, haction⟩
    · rintro ⟨rel, hrel, haction⟩
      exact ⟨(rel, .flagConflict), (mem_steps hdepth h).mpr ⟨hrel, nofun, haction⟩, rfl⟩

/-- **A walk computes the difference.** Over a forest, from an empty session and with a sink
that keeps every command, a walk through a pair of text paths succeeds with every budget from
some one on. Whenever it succeeds, the commands kept and the session are the difference of
the two sides: each command that some place demands, each path to delete and each path to add
is there, nothing else is, and nothing is there twice. -/
theorem walk_computes_difference (forest : Forest) (rules : Rules) (pair : Pair)
    (h : forest.CoversPair pair)
    (htext : pair.source.isText = true ∧ pair.destination.isText = true) :
    (∃ budget, ∀ more, budget ≤ more → ∃ finish,
      (walk rules more pair).run forest.fileSystem (.collect none) ⟨(), #[], {}, #[]⟩ =
        (.ok (), finish)) ∧
      ∀ budget finish,
        (walk rules budget pair).run forest.fileSystem (.collect none) ⟨(), #[], {}, #[]⟩ =
          (.ok (), finish) →
        forest.Difference rules pair finish.sink.toList finish.session := by
  obtain ⟨depth, hdepth⟩ := exists_shallow h
  constructor
  · obtain ⟨budget, finish, hb⟩ :=
      exists_walk_ok rules h htext Sink.acceptsAll_collect ⟨(), #[], {}, #[]⟩
    exact ⟨budget, fun more hmore => ⟨finish, hb more hmore⟩⟩
  · intro budget finish hrun
    have hc := Dialogue.concludes_of_run_ok _ _ hrun
    have htakes := (unlessRefused_walk h hdepth htext hc).of_run_ok hrun
    rw [Dialogue.kept_eq_commands hrun rfl]
    exact difference_of_takes h hdepth rfl rfl htakes

/-- A directory with an entry stands where the source has a file. -/
theorem walk_computes_difference_file_directory :
    let s : Path := .ofString "s"
    let d : Path := .ofString "d"
    let nodes : List (Place × Tree.Node) := [([[0x73]], .directory), ([[0x73], [0x61]], .file [0x31]),
      ([[0x64]], .directory), ([[0x64], [0x61]], .directory), ([[0x64], [0x61], [0x62]], .file [])]
    ∃ h : Tree.Placed nodes,
      let forest := (Volume.ofNodes nodes h).toForest
      forest.CoversPair ⟨s, d⟩ ∧ (s.isText = true ∧ d.isText = true) ∧
        (∃ budget, ∀ more, budget ≤ more → ∃ finish,
          (walk {} more ⟨s, d⟩).run forest.fileSystem (.collect none) ⟨(), #[], {}, #[]⟩ =
            (.ok (), finish)) ∧
        ∀ budget finish,
          (walk {} budget ⟨s, d⟩).run forest.fileSystem (.collect none) ⟨(), #[], {}, #[]⟩ =
            (.ok (), finish) →
          forest.Difference {} ⟨s, d⟩ finish.sink.toList finish.session := by
  intro s d nodes
  have h : Tree.Placed nodes := by decide +kernel
  have hcovers : (Volume.ofNodes nodes h).CoversPair ⟨s, d⟩ := ⟨trivial, trivial⟩
  have htext : s.isText = true ∧ d.isText = true := by decide +kernel
  exact ⟨h, hcovers, htext, walk_computes_difference _ _ _ hcovers htext⟩

end Forest

end TreePlan

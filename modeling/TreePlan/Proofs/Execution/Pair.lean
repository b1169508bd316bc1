import TreePlan.Proofs.Forest.Outcome
import TreePlan.Proofs.Volume

/-!
# Carrying out the commands for one pair

The commands for a pair are decided by looking at the file system before any of them is
carried out. Here they are carried out, one after another, on the tree of a volume.

`Volume.executes` says: if the two sides and the directory that holds the destination are as
they were when the plan was made, every command finds what it needs, the destination becomes
like the source, and nothing else changes.

The induction follows both trees down at once. A row is taken apart into what happens before
the children are visited, the children, and what happens afterwards: `Volume.Open` is what
the children need of the tree, and `Volume.Filled` is what they leave.
-/

namespace TreePlan

/-! ## The commands for a pair -/

namespace Forest

variable (forest : Forest) (rules : Rules)

def commands (depth : Nat) (pair : Pair) : List Command :=
  (forest.steps rules depth pair).filterMap (forest.command? pair)

def commandsOf (depth : Nat) (pair : Pair) (action : Action) : List Command :=
  (forest.stepsOf rules (forest.steps rules depth) pair action).filterMap (forest.command? pair)

variable {forest rules} {depth : Nat} {pair : Pair}

theorem commands_succ :
    forest.commands rules (depth + 1) pair =
      (policy (forest.kind pair.source) (forest.kind pair.destination)).flatMap
        (forest.commandsOf rules depth pair) := by
  rw [commands, steps, List.filterMap_flatMap]
  rfl

theorem commandsOf_recurse :
    forest.commandsOf rules depth pair .recurse =
      (forest.childNames rules pair).flatMap fun name =>
        forest.commands rules depth (pair.child name) := by
  rw [commandsOf, stepsOf_recurse, List.filterMap_flatMap]
  simp only [List.filterMap_map]
  rfl

@[simp] theorem commandsOf_remove :
    forest.commandsOf rules depth pair .remove =
      [.remove pair.destination (forest.kind pair.destination = .directory)] := rfl

@[simp] theorem commandsOf_copy :
    forest.commandsOf rules depth pair .copy = [.copy pair.source pair.destination] := rfl

@[simp] theorem commandsOf_mkdir :
    forest.commandsOf rules depth pair .mkdir = [.mkdir pair.destination] := rfl

@[simp] theorem commandsOf_queueAdd : forest.commandsOf rules depth pair .queueAdd = [] := rfl

@[simp] theorem commandsOf_queueDelete :
    forest.commandsOf rules depth pair .queueDelete = [] := rfl

@[simp] theorem commandsOf_flagConflict :
    forest.commandsOf rules depth pair .flagConflict = [] := rfl

theorem commandsOf_copyIfDifferent :
    forest.commandsOf rules depth pair .copyIfDifferent =
      if forest.contents pair.source = forest.contents pair.destination then []
      else [.copy pair.source pair.destination] := by
  rw [commandsOf, stepsOf_of_ne (by decide : Action.copyIfDifferent ≠ .recurse)]
  by_cases h : forest.contents pair.source = forest.contents pair.destination
  · simp [command?, h]
  · simp [command?, h]

end Forest

namespace Volume

variable {volume : Volume} {rules : Rules} {depth : Nat} {pair : Pair} {tree mid after : Tree}

/-! ## Paths and places -/

theorem locate_below {path : Path} {rel : List Name} (h : volume.Covers path)
    (hrel : ∀ name ∈ rel, volume.IsEntry name) :
    volume.locate (path.below rel) = volume.locate path ++ rel := by
  induction rel generalizing path with
  | nil => simp
  | cons name rel ih =>
      rw [List.forall_mem_cons] at hrel
      rw [Path.below_cons, ih (volume.covers_child h hrel.1) hrel.2, volume.locate_child h hrel.1,
        List.append_assoc]
      rfl

theorem kind_eq_missing {path : Path} (h : volume.Covers path) :
    volume.kind path = .missing ↔ volume.tree (volume.locate path) = none := by
  rw [volume.kind_eq h, Tree.Node.kind_eq_missing]

theorem kind_eq_directory {path : Path} (h : volume.Covers path) :
    volume.kind path = .directory ↔ volume.tree (volume.locate path) = some .directory := by
  rw [volume.kind_eq h, Tree.Node.kind_eq_directory]

theorem kind_eq_file {path : Path} (h : volume.Covers path) :
    volume.kind path = .file ↔
      volume.tree (volume.locate path) = some (.file (volume.contents path)) := by
  rw [volume.kind_eq h, Tree.Node.kind_eq_file]
  constructor
  · rintro ⟨contents, hfile⟩
    rw [volume.contents_eq h hfile, hfile]
  · intro hfile
    exact ⟨_, hfile⟩

/-- Where the walk finds nothing, there is nothing in the tree. -/
theorem tree_eq_none {path : Path} {rel : List Name} (h : volume.Covers path)
    (hrel : ∀ name ∈ rel, volume.IsEntry name) (hkind : volume.kind (path.below rel) = .missing) :
    volume.tree (volume.locate path ++ rel) = none := by
  rw [← locate_below h hrel]
  exact (kind_eq_missing (Forest.covers_below h hrel)).mp hkind

/-- There is nothing below an entry that does not exist. -/
theorem tree_cons_eq_none {path : Path} {name : Name} {rel : List Name} (h : volume.Covers path)
    (hrel : volume.Plain rules (name :: rel)) (hkind : volume.kind (path.child name) = .missing) :
    volume.tree (volume.locate path ++ name :: rel) = none := by
  obtain ⟨⟨hname, -⟩, hrest⟩ := Forest.plain_cons.mp hrel
  apply tree_eq_none h hrel.isEntry
  rw [Path.below_cons]
  exact Forest.kind_below_of_missing (volume.covers_child h hname) hrest.isEntry hkind

/-- There is nothing below anything but a directory. -/
theorem tree_cons_of_ne_directory {path : Path} {name : Name} {rel : List Name}
    (h : volume.Covers path) (hrel : volume.Plain rules (name :: rel))
    (hkind : volume.kind path ≠ .directory) :
    volume.tree (volume.locate path ++ name :: rel) = none :=
  tree_cons_eq_none h hrel (volume.child_missing h hkind (Forest.plain_cons.mp hrel).1.1)

/-! ## Before and after -/

/-- Both sides of a pair are as they were when the plan was made, and there is a directory to
hold the destination. -/
structure Ready (volume : Volume) (pair : Pair) (tree : Tree) : Prop where
  source : ∀ rel, tree (volume.locate pair.source ++ rel) =
    volume.tree (volume.locate pair.source ++ rel)
  destination : ∀ rel, tree (volume.locate pair.destination ++ rel) =
    volume.tree (volume.locate pair.destination ++ rel)
  holds : tree.Holds (volume.locate pair.destination)

/-- The destination has become like the source was, and nothing else has changed. -/
structure Becomes (volume : Volume) (rules : Rules) (pair : Pair) (tree after : Tree) : Prop where
  same : ∀ rel, volume.Plain rules rel →
    after (volume.locate pair.destination ++ rel) = volume.tree (volume.locate pair.source ++ rel)
  frame : ∀ place, ¬ volume.locate pair.destination <+: place → after place = tree place

/-- The destination is a directory, and all else that the children need is as it was. -/
structure Open (volume : Volume) (pair : Pair) (tree : Tree) : Prop where
  source : ∀ rel, tree (volume.locate pair.source ++ rel) =
    volume.tree (volume.locate pair.source ++ rel)
  isDirectory : tree (volume.locate pair.destination) = some .directory
  below : ∀ name rel, tree (volume.locate pair.destination ++ name :: rel) =
    volume.tree (volume.locate pair.destination ++ name :: rel)

/-- The destination is still a directory, and all that is below it has become like it was
below the source. -/
structure Filled (volume : Volume) (rules : Rules) (pair : Pair) (tree after : Tree) : Prop where
  isDirectory : after (volume.locate pair.destination) = some .directory
  below : ∀ name rel, volume.Plain rules (name :: rel) →
    after (volume.locate pair.destination ++ name :: rel) =
      volume.tree (volume.locate pair.source ++ name :: rel)
  frame : ∀ place, ¬ volume.locate pair.destination <+: place → after place = tree place

/-- A pair stays ready while nothing changes at its sides and in what holds the destination. -/
theorem Ready.congr (h : volume.Ready pair tree)
    (hs : ∀ rel, mid (volume.locate pair.source ++ rel) = tree (volume.locate pair.source ++ rel))
    (hd : ∀ rel, mid (volume.locate pair.destination ++ rel) =
      tree (volume.locate pair.destination ++ rel))
    (hholds : mid (volume.locate pair.destination).dropLast =
      tree (volume.locate pair.destination).dropLast) : volume.Ready pair mid where
  source rel := (hs rel).trans (h.source rel)
  destination rel := (hd rel).trans (h.destination rel)
  holds := ⟨h.holds.1, hholds.trans h.holds.2⟩

theorem Ready.tree_source (h : volume.Ready pair tree) :
    tree (volume.locate pair.source) = volume.tree (volume.locate pair.source) := by
  simpa using h.source []

theorem Ready.tree_destination (h : volume.Ready pair tree) :
    tree (volume.locate pair.destination) = volume.tree (volume.locate pair.destination) := by
  simpa using h.destination []

/-- An open directory makes every child ready. -/
theorem Open.ready_child {name : Name} (h : volume.Open pair tree) (hpair : volume.CoversPair pair)
    (hname : volume.IsEntry name) : volume.Ready (pair.child name) tree where
  source rel := by
    rw [Pair.source_child, volume.locate_child hpair.source hname, List.append_assoc]
    exact h.source _
  destination rel := by
    rw [Pair.destination_child, volume.locate_child hpair.destination hname, List.append_assoc]
    exact h.below _ _
  holds := by
    rw [Pair.destination_child, volume.locate_child hpair.destination hname]
    exact ⟨by simp, by rw [List.dropLast_concat]; exact h.isDirectory⟩

/-! ## Several pairs -/

/-- The commands for a pair do what they should, whatever became of the tree elsewhere. -/
def Executes (volume : Volume) (rules : Rules) (depth : Nat) (pair : Pair) : Prop :=
  ∀ tree, volume.Ready pair tree → ∃ after,
    tree.executeAll volume.locate (volume.commands rules depth pair) = some after ∧
      volume.Becomes rules pair tree after

/-- The commands for several pairs, one pair after another. What is done for one of them
leaves the others as they were, because every destination is apart from the other
destinations and from all sources. -/
theorem exists_executeAll_pairs {pairs : List Pair}
    (hdestinations : pairs.Pairwise fun a b =>
      Apart (volume.locate a.destination) (volume.locate b.destination))
    (hsources : ∀ a ∈ pairs, ∀ b ∈ pairs,
      Apart (volume.locate a.destination) (volume.locate b.source))
    (hready : ∀ pair ∈ pairs, volume.Ready pair tree)
    (hexecutes : ∀ pair ∈ pairs, volume.Executes rules depth pair) :
    ∃ after,
      tree.executeAll volume.locate (pairs.flatMap (volume.commands rules depth)) = some after ∧
        (∀ pair ∈ pairs, ∀ rel, volume.Plain rules rel →
          after (volume.locate pair.destination ++ rel) =
            volume.tree (volume.locate pair.source ++ rel)) ∧
        ∀ place, (∀ pair ∈ pairs, ¬ volume.locate pair.destination <+: place) →
          after place = tree place := by
  -- The last pair is taken off, so that all before it have been carried out on `tree` itself.
  induction pairs using List.reverseRecOn with
  | nil => exact ⟨tree, rfl, fun _ h => absurd h List.not_mem_nil, fun _ _ => rfl⟩
  | append_singleton pairs pair ih =>
      have hmem : pair ∈ pairs ++ [pair] := by simp
      have hsub : ∀ other ∈ pairs, other ∈ pairs ++ [pair] := fun other hother => by simp [hother]
      obtain ⟨hbefore, -, hlast⟩ := List.pairwise_append.mp hdestinations
      have hapart : ∀ other ∈ pairs,
          Apart (volume.locate other.destination) (volume.locate pair.destination) :=
        fun other hother => hlast other hother pair (List.mem_singleton_self _)
      obtain ⟨mid, hmid, hsame, hframe⟩ := ih hbefore
        (fun a ha b hb => hsources a (hsub a ha) b (hsub b hb))
        (fun a ha => hready a (hsub a ha)) fun a ha => hexecutes a (hsub a ha)
      -- Nothing that the last pair needs is at or below another destination.
      have hmidReady : volume.Ready pair mid := by
        refine (hready pair hmem).congr (fun rel => ?_) (fun rel => ?_) ?_
        · refine hframe _ fun other hother => ?_
          exact (hsources other (hsub other hother) pair hmem).not_above (List.prefix_append _ _)
        · refine hframe _ fun other hother => ?_
          exact (hapart other hother).not_above (List.prefix_append _ _)
        · refine hframe _ fun other hother hpre => ?_
          exact (hapart other hother).1 (hpre.trans (List.dropLast_prefix _))
      obtain ⟨after, hafter, hbecomes⟩ := hexecutes pair hmem mid hmidReady
      refine ⟨after, ?_, fun other hother rel hrel => ?_, fun place hplace => ?_⟩
      · rw [List.flatMap_append, List.flatMap_singleton]
        exact Tree.executeAll_append hmid hafter
      · rcases List.mem_append.mp hother with hother | hother
        · -- an earlier pair, which the last one does not touch
          rw [hbecomes.frame, hsame other hother rel hrel]
          exact (hapart other hother).symm.not_above (List.prefix_append _ _)
        · -- the last pair itself
          rw [List.mem_singleton] at hother
          subst hother
          exact hbecomes.same rel hrel
      · rw [hbecomes.frame place (hplace pair hmem),
          hframe place fun other hother => hplace other (hsub other hother)]

/-! ## The children -/

/-- The commands for the children fill an open directory. -/
theorem exists_executeAll_children (hpair : volume.CoversPair pair)
    (hapart : Apart (volume.locate pair.source) (volume.locate pair.destination))
    (hvisit : ∀ name, volume.IsEntry name → volume.Executes rules depth (pair.child name))
    (hopen : volume.Open pair tree) :
    ∃ after,
      tree.executeAll volume.locate (volume.commandsOf rules depth pair .recurse) = some after ∧
        volume.Filled rules pair tree after := by
  have hentry : ∀ name ∈ volume.childNames rules pair, volume.IsEntry name := fun name hname =>
    ((Forest.mem_childNames hpair).mp hname).1.1
  have hs : ∀ name ∈ volume.childNames rules pair,
      volume.locate (pair.child name).source = volume.locate pair.source ++ [name] :=
    fun name hname => volume.locate_child hpair.source (hentry name hname)
  have hd : ∀ name ∈ volume.childNames rules pair,
      volume.locate (pair.child name).destination = volume.locate pair.destination ++ [name] :=
    fun name hname => volume.locate_child hpair.destination (hentry name hname)
  obtain ⟨after, hafter, hsame, hframe⟩ : ∃ after,
      tree.executeAll volume.locate (((volume.childNames rules pair).map pair.child).flatMap
        (volume.commands rules depth)) = some after ∧ _ ∧ _ := by
    apply exists_executeAll_pairs
    · -- two children have two names
      rw [List.pairwise_map]
      refine (Forest.nodup_childNames pair).imp_of_mem fun {m n} hm hn hmn => ?_
      rw [hd m hm, hd n hn]
      exact Apart.of_ne hmn
    · -- what is below one side is apart from what is below the other
      simp only [List.forall_mem_map]
      intro m hm n hn
      rw [hd m hm, hs n hn]
      exact hapart.symm.append _ _
    · simp only [List.forall_mem_map]
      exact fun name hname => hopen.ready_child hpair (hentry name hname)
    · simp only [List.forall_mem_map]
      exact fun name hname => hvisit name (hentry name hname)
  simp only [List.forall_mem_map] at hsame hframe
  -- Only what is at or below one of the entries may have changed.
  have houtside : ∀ place, (∀ name ∈ volume.childNames rules pair,
      ¬ volume.locate pair.destination ++ [name] <+: place) → after place = tree place := by
    intro place hplace
    apply hframe
    intro name hname
    rw [hd name hname]
    exact hplace name hname
  refine ⟨after, ?_, ?_, ?_, ?_⟩
  · rw [Forest.commandsOf_recurse, ← List.flatMap_map]
    exact hafter
  · rw [houtside _ fun _ _ => not_child_above]
    exact hopen.isDirectory
  · intro name rel hrel
    obtain ⟨hplain, hrest⟩ := Forest.plain_cons.mp hrel
    by_cases hname : name ∈ volume.childNames rules pair
    · have := hsame name hname rel hrest
      rwa [hs name hname, hd name hname, List.append_assoc, List.append_assoc] at this
    · -- A name that is no child leads nowhere on either side.
      have hnone : ¬ (volume.kind (pair.source.child name) ≠ .missing ∨
          volume.kind (pair.destination.child name) ≠ .missing) := fun hexists =>
        hname ((Forest.mem_childNames hpair).mpr ⟨hplain, hexists⟩)
      rw [not_or, not_not, not_not] at hnone
      rw [houtside, hopen.below, tree_cons_eq_none hpair.destination hrel hnone.2,
        tree_cons_eq_none hpair.source hrel hnone.1]
      intro other hother
      rw [child_above_iff]
      rintro rfl
      exact hname hother
  · intro place hplace
    refine houtside place fun name _ hpre => hplace ?_
    exact (List.prefix_append _ _).trans hpre

/-! ## The rows -/

/-- What holds of a destination that had no children to visit and has none now. -/
theorem becomes_of_flat (hpair : volume.CoversPair pair) (hready : volume.Ready pair tree)
    (hs : volume.kind pair.source ≠ .directory) (hd : volume.kind pair.destination ≠ .directory)
    (hafter : after (volume.locate pair.destination) = volume.tree (volume.locate pair.source))
    (hframe : ∀ place, place ≠ volume.locate pair.destination → after place = tree place) :
    volume.Becomes rules pair tree after where
  same rel hrel := by
    cases rel with
    | nil => simpa using hafter
    | cons name rel =>
        rw [hframe _ (by simp), hready.destination,
          tree_cons_of_ne_directory hpair.destination hrel hd,
          tree_cons_of_ne_directory hpair.source hrel hs]
  frame place hplace := by
    apply hframe
    rintro rfl
    exact hplace (List.prefix_refl _)

/-- Putting what is at the source in the place of a destination without children. -/
theorem becomes_update (hpair : volume.CoversPair pair) (hready : volume.Ready pair tree)
    (hs : volume.kind pair.source ≠ .directory) (hd : volume.kind pair.destination ≠ .directory) :
    volume.Becomes rules pair tree (Function.update tree (volume.locate pair.destination)
      (volume.tree (volume.locate pair.source))) :=
  becomes_of_flat hpair hready hs hd (Function.update_self ..) fun _ hplace =>
    Function.update_of_ne hplace _ _

/-- What holds of a destination that was dropped with all that was below it. -/
theorem becomes_of_dropped (hpair : volume.CoversPair pair)
    (hs : volume.kind pair.source ≠ .directory) (hmid : volume.Filled rules pair tree mid)
    (hafter : after (volume.locate pair.destination) = volume.tree (volume.locate pair.source))
    (hframe : ∀ place, place ≠ volume.locate pair.destination →
      after place = mid.drop (volume.locate pair.destination) place) :
    volume.Becomes rules pair tree after where
  same rel hrel := by
    cases rel with
    | nil => simpa using hafter
    | cons name rel =>
        rw [hframe _ (by simp), Tree.drop_of_above (List.prefix_append _ _),
          tree_cons_of_ne_directory hpair.source hrel hs]
  frame place hplace := by
    rw [hframe, Tree.drop_of_not_above hplace, hmid.frame place hplace]
    rintro rfl
    exact hplace (List.prefix_refl _)

/-- What holds of a destination that is a directory to be filled. -/
theorem open_of_ready
    (hapart : Apart (volume.locate pair.source) (volume.locate pair.destination))
    (hready : volume.Ready pair tree) (hmid : mid (volume.locate pair.destination) = some .directory)
    (hframe : ∀ place, place ≠ volume.locate pair.destination → mid place = tree place) :
    volume.Open pair mid where
  source rel := by
    rw [hframe, hready.source]
    intro heq
    exact hapart.1 (heq ▸ List.prefix_append _ _)
  isDirectory := hmid
  below name rel := by rw [hframe _ (by simp), hready.destination]

/-- What holds of a destination that was filled. -/
theorem becomes_of_filled (hs : volume.kind pair.source = .directory)
    (hpair : volume.CoversPair pair) (hafter : volume.Filled rules pair mid after)
    (hframe : ∀ place, place ≠ volume.locate pair.destination → mid place = tree place) :
    volume.Becomes rules pair tree after where
  same rel hrel := by
    cases rel with
    | nil =>
        rw [volume.kind_eq hpair.source, Tree.Node.kind_eq_directory] at hs
        rw [List.append_nil, List.append_nil, hafter.isDirectory, hs]
    | cons name rel => exact hafter.below name rel hrel
  frame place hplace := by
    rw [hafter.frame place hplace, hframe]
    rintro rfl
    exact hplace (List.prefix_refl _)

section
variable (hpair : volume.CoversPair pair)
  (hapart : Apart (volume.locate pair.source) (volume.locate pair.destination))
  (hvisit : ∀ name, volume.IsEntry name → volume.Executes rules depth (pair.child name))
  (hready : volume.Ready pair tree)

include hpair hapart hvisit hready

/-- The rows of a source that does not exist. -/
theorem exists_executeAll_row_missing (hs : volume.kind pair.source = .missing) :
    ∃ after,
      tree.executeAll volume.locate ((policy .missing (volume.kind pair.destination)).flatMap
        (volume.commandsOf rules depth pair)) = some after ∧
        volume.Becomes rules pair tree after := by
  have hne : volume.kind pair.source ≠ .directory := by simp [hs]
  have hsource := (kind_eq_missing hpair.source).mp hs
  have hdestination := hready.tree_destination
  cases hd : volume.kind pair.destination with
  | missing =>  -- nothing is to be done
      refine ⟨tree, rfl, becomes_of_flat hpair hready hne (by simp [hd]) ?_ fun _ _ => rfl⟩
      rw [hdestination, (kind_eq_missing hpair.destination).mp hd, hsource]
  | file =>
      refine ⟨_, ?_, becomes_update hpair hready hne (by simp [hd])⟩
      simp only [policy, List.flatMap_cons, List.flatMap_nil, Forest.commandsOf_remove, hd,
        Forest.commandsOf_queueDelete, List.append_nil, reduceCtorEq, decide_false]
      rw [Tree.executeAll_singleton, hsource]
      exact Tree.execute_remove_file (hdestination.trans ((kind_eq_file hpair.destination).mp hd))
  | directory =>  -- what is in the directory goes first
      have hdirectory := hdestination.trans ((kind_eq_directory hpair.destination).mp hd)
      obtain ⟨mid, hmid, hfilled⟩ := exists_executeAll_children hpair hapart hvisit
        (open_of_ready hapart hready hdirectory fun _ _ => rfl)
      refine ⟨mid.drop (volume.locate pair.destination), ?_,
        becomes_of_dropped hpair hne hfilled ?_ fun _ _ => rfl⟩
      · simp only [policy, List.flatMap_cons, List.flatMap_nil, Forest.commandsOf_remove, hd,
          Forest.commandsOf_queueDelete, List.append_nil, decide_true]
        apply Tree.executeAll_append hmid
        rw [Tree.executeAll_singleton]
        exact Tree.execute_remove_directory hfilled.isDirectory
      · rw [Tree.drop_of_above (List.prefix_refl _), hsource]

/-- The rows of a file. -/
theorem exists_executeAll_row_file (hs : volume.kind pair.source = .file) :
    ∃ after,
      tree.executeAll volume.locate ((policy .file (volume.kind pair.destination)).flatMap
        (volume.commandsOf rules depth pair)) = some after ∧
        volume.Becomes rules pair tree after := by
  have hne : volume.kind pair.source ≠ .directory := by simp [hs]
  have hfile := (kind_eq_file hpair.source).mp hs
  have hsource := hready.tree_source.trans hfile
  have hdestination := hready.tree_destination
  cases hd : volume.kind pair.destination with
  | missing =>
      have hnone := hdestination.trans ((kind_eq_missing hpair.destination).mp hd)
      refine ⟨_, ?_, becomes_update hpair hready hne (by simp [hd])⟩
      simp only [policy, List.flatMap_cons, List.flatMap_nil, Forest.commandsOf_copy,
        Forest.commandsOf_queueAdd, List.append_nil]
      rw [Tree.executeAll_singleton, hfile]
      exact Tree.execute_copy hsource (by simp [hnone]) hready.holds
  | file =>  -- one file may be copied over the other
      have hother := hdestination.trans ((kind_eq_file hpair.destination).mp hd)
      simp only [policy, List.flatMap_cons, List.flatMap_nil, Forest.commandsOf_copyIfDifferent,
        List.append_nil]
      by_cases heq : volume.contents pair.source = volume.contents pair.destination
      · -- the contents are the same already
        rw [if_pos heq]
        refine ⟨tree, rfl, becomes_of_flat hpair hready hne (by simp [hd]) ?_ fun _ _ => rfl⟩
        rw [hother, hfile, heq]
      · rw [if_neg heq]
        refine ⟨_, ?_, becomes_update hpair hready hne (by simp [hd])⟩
        rw [Tree.executeAll_singleton, hfile]
        exact Tree.execute_copy hsource (by simp [hother]) hready.holds
  | directory =>  -- the directory makes room for the file
      have hdirectory := hdestination.trans ((kind_eq_directory hpair.destination).mp hd)
      obtain ⟨mid, hmid, hfilled⟩ := exists_executeAll_children hpair hapart hvisit
        (open_of_ready hapart hready hdirectory fun _ _ => rfl)
      -- Metadata that are left in the directory go with it; the source, and what holds the
      -- destination, stay.
      have hdropped : ∀ place, ¬ volume.locate pair.destination <+: place →
          mid.drop (volume.locate pair.destination) place = tree place := fun place hplace => by
        rw [Tree.drop_of_not_above hplace, hfilled.frame place hplace]
      refine ⟨Function.update (mid.drop (volume.locate pair.destination))
          (volume.locate pair.destination) (volume.tree (volume.locate pair.source)), ?_,
        becomes_of_dropped hpair hne hfilled (Function.update_self ..) fun _ hplace =>
          Function.update_of_ne hplace _ _⟩
      simp only [policy, List.flatMap_cons, List.flatMap_nil, Forest.commandsOf_remove, hd,
        Forest.commandsOf_queueDelete, Forest.commandsOf_copy, Forest.commandsOf_queueAdd,
        Forest.commandsOf_flagConflict, List.append_nil, List.nil_append, decide_true]
      apply Tree.executeAll_append hmid
      apply Tree.executeAll_append
      · rw [Tree.executeAll_singleton]
        exact Tree.execute_remove_directory hfilled.isDirectory
      · rw [Tree.executeAll_singleton, hfile]
        apply Tree.execute_copy
        · rw [hdropped _ hapart.2, hsource]
        · simp [Tree.drop_of_above (List.prefix_refl _)]
        · exact hready.holds.of_frame hdropped

/-- The rows of a directory. -/
theorem exists_executeAll_row_directory (hs : volume.kind pair.source = .directory) :
    ∃ after,
      tree.executeAll volume.locate ((policy .directory (volume.kind pair.destination)).flatMap
        (volume.commandsOf rules depth pair)) = some after ∧
        volume.Becomes rules pair tree after := by
  have hdestination := hready.tree_destination
  cases hd : volume.kind pair.destination with
  | missing =>  -- the directory is made before its children
      have hnone := hdestination.trans ((kind_eq_missing hpair.destination).mp hd)
      have hframe : ∀ place, place ≠ volume.locate pair.destination →
          Function.update tree (volume.locate pair.destination) (some .directory) place =
            tree place := fun _ hplace => Function.update_of_ne hplace _ _
      obtain ⟨after, hafter, hfilled⟩ := exists_executeAll_children hpair hapart hvisit
        (open_of_ready hapart hready (Function.update_self ..) hframe)
      refine ⟨after, ?_, becomes_of_filled hs hpair hfilled hframe⟩
      simp only [policy, List.flatMap_cons, List.flatMap_nil, Forest.commandsOf_mkdir,
        Forest.commandsOf_queueAdd, List.append_nil, List.nil_append]
      refine Tree.executeAll_append ?_ hafter
      rw [Tree.executeAll_singleton]
      exact Tree.execute_mkdir hnone hready.holds
  | file =>  -- the file makes room for the directory
      have hfile := hdestination.trans ((kind_eq_file hpair.destination).mp hd)
      have hframe : ∀ place, place ≠ volume.locate pair.destination →
          Function.update (Function.update tree (volume.locate pair.destination) none)
            (volume.locate pair.destination) (some .directory) place = tree place := by
        intro place hplace
        rw [Function.update_of_ne hplace, Function.update_of_ne hplace]
      obtain ⟨after, hafter, hfilled⟩ := exists_executeAll_children hpair hapart hvisit
        (open_of_ready hapart hready (Function.update_self ..) hframe)
      refine ⟨after, ?_, becomes_of_filled hs hpair hfilled hframe⟩
      simp only [policy, List.flatMap_cons, List.flatMap_nil, Forest.commandsOf_remove, hd,
        Forest.commandsOf_queueDelete, Forest.commandsOf_mkdir, Forest.commandsOf_queueAdd,
        Forest.commandsOf_flagConflict, List.append_nil, List.nil_append, reduceCtorEq, decide_false]
      apply Tree.executeAll_append
      · rw [Tree.executeAll_singleton]
        exact Tree.execute_remove_file hfile
      · refine Tree.executeAll_append ?_ hafter
        rw [Tree.executeAll_singleton]
        apply Tree.execute_mkdir
        · exact Function.update_self ..
        · exact hready.holds.of_frame fun _ hplace => Tree.update_of_not_above hplace
  | directory =>  -- only the children may differ
      have hdirectory := hdestination.trans ((kind_eq_directory hpair.destination).mp hd)
      obtain ⟨after, hafter, hfilled⟩ := exists_executeAll_children hpair hapart hvisit
        (open_of_ready hapart hready hdirectory fun _ _ => rfl)
      refine ⟨after, ?_, becomes_of_filled hs hpair hfilled fun _ _ => rfl⟩
      simp only [policy, List.flatMap_cons, List.flatMap_nil, List.append_nil]
      exact hafter

end

/-- **Carrying out the commands for one pair.** -/
theorem executes (hpair : volume.CoversPair pair) (hdepth : volume.Shallow depth pair)
    (hapart : Apart (volume.locate pair.source) (volume.locate pair.destination)) :
    volume.Executes rules depth pair := by
  induction depth generalizing pair with
  | zero =>  -- nothing is on either side
      intro tree hready
      obtain ⟨hs, hd⟩ := hdepth [] (fun _ hname => absurd hname List.not_mem_nil) (Nat.le_refl 0)
      rw [Path.below_nil] at hs hd
      refine ⟨tree, rfl, becomes_of_flat hpair hready ?_ ?_ ?_ fun _ _ => rfl⟩
      · simp [hs]
      · simp [hd]
      · rw [hready.tree_destination, (kind_eq_missing hpair.destination).mp hd,
          (kind_eq_missing hpair.source).mp hs]
  | succ depth ih =>
      intro tree hready
      have hvisit : ∀ name, volume.IsEntry name → volume.Executes rules depth (pair.child name) := by
        intro name hname
        refine ih (hpair.child hname) (hdepth.child hname) ?_
        rw [Pair.source_child, Pair.destination_child, volume.locate_child hpair.source hname,
          volume.locate_child hpair.destination hname]
        exact hapart.append _ _
      rw [Forest.commands_succ]
      cases hs : volume.kind pair.source with
      | missing => exact exists_executeAll_row_missing hpair hapart hvisit hready hs
      | file => exact exists_executeAll_row_file hpair hapart hvisit hready hs
      | directory => exact exists_executeAll_row_directory hpair hapart hvisit hready hs

end Volume

end TreePlan

import TreePlan.Proofs.Execution.Pair
import Mathlib.Data.Set.Finite.Basic

/-!
# What a plan makes of a volume

The commands of a plan change the tree of a volume, and what is there afterwards can be looked at
again. This module says that it is a volume once more, even where only a part of the plan was
carried out.

* `Tree.Changes` is all that one command can do to a tree; the frame of a list of commands, and
  what its commands preserve, are read off from it.
* `Volume.Sound` says of a tree what makes a volume of it. It holds of the tree of a volume, and
  `Sound.executeAll` shows that commands preserve it, whatever they are.
* `Volume.Regrown` relates a volume to one with the same paths and places but another tree, and
  `Sound.exists_regrown` finds one.
-/

namespace TreePlan

def Command.target? : Command → Option Path
  | .remove path _ | .mkdir path | .copy _ path => some path
  | .delete _ | .commit _ _ | .add _ => none

theorem Command.target?_of_isVersionControl {command : Command}
    (h : command.isVersionControl = true) : command.target? = none := by
  cases command with
  | remove | copy | mkdir => exact absurd h Bool.false_ne_true
  | delete | commit | add => rfl

namespace Tree

variable {locate : Path → Place} {tree after : Tree} {place other : Place} {command : Command}
  {commands : List Command}

/-! ## What commands do -/

inductive Changes (tree : Tree) (place : Place) : Tree → Prop
  | drop (h : tree place = some .directory) : Changes tree place (tree.drop place)
  | clear {contents : Bytes} (h : tree place = some (.file contents)) :
      Changes tree place (Function.update tree place none)
  | mkdir (h : tree place = none) (hholds : tree.Holds place) :
      Changes tree place (Function.update tree place (some .directory))
  | write {contents : Bytes} (h : tree place ≠ some .directory) (hholds : tree.Holds place) :
      Changes tree place (Function.update tree place (some (.file contents)))

/-- A command changes nothing, or something at its path. -/
theorem execute_cases (h : execute locate tree command = some after) :
    after = tree ∨ ∃ path, command.target? = some path ∧ tree.Changes (locate path) after := by
  cases command with
  | delete | commit | add => exact .inl (Option.some.inj h).symm
  | remove path recursive =>
      refine .inr ⟨path, rfl, ?_⟩
      cases recursive with
      | true =>
          rw [execute] at h
          split at h
          · next hdirectory =>
            cases h
            exact .drop hdirectory
          · cases h
      | false =>
          rw [execute] at h
          split at h
          · next hfile =>
            cases h
            exact .clear hfile
          · cases h
  | mkdir path =>
      refine .inr ⟨path, rfl, ?_⟩
      rw [execute] at h
      split at h
      · next hplace =>
        cases h
        exact .mkdir hplace.1 hplace.2
      · cases h
  | copy source path =>
      refine .inr ⟨path, rfl, ?_⟩
      rw [execute] at h
      split at h
      · split at h
        · next hplace =>
          cases h
          exact .write hplace.1 hplace.2
        · cases h
      · cases h

namespace Changes

theorem frame (h : tree.Changes place after) (hother : ¬ place <+: other) :
    after other = tree other := by
  cases h with
  | drop => exact drop_of_not_above hother
  | clear | mkdir | write => exact update_of_not_above hother

/-- At most one place comes to hold a node. -/
theorem ne_none (h : tree.Changes place after) (hother : other ≠ place)
    (hafter : after other ≠ none) : tree other ≠ none := by
  cases h with
  | drop =>
      by_cases habove : place <+: other
      · exact absurd (drop_of_above habove) hafter
      · rwa [drop_of_not_above habove] at hafter
  | clear | mkdir | write => rwa [Function.update_of_ne hother] at hafter

/-- What is in a directory still is. -/
theorem isDirectory {name : Name} (h : tree.Changes place after)
    (hbefore : tree (other ++ [name]) ≠ none → tree other = some .directory)
    (hafter : after (other ++ [name]) ≠ none) : after other = some .directory := by
  by_cases hnew : other ++ [name] = place
  · -- A node that is new is in the directory that holds it.
    have hholds : tree other = some .directory := by
      cases h with
      | drop h => exact hbefore (by rw [hnew, h]; exact nofun)
      | clear h => exact hbefore (by rw [hnew, h]; exact nofun)
      | mkdir _ hholds | write _ hholds =>
          have := hholds.2
          rwa [← hnew, List.dropLast_concat] at this
    rw [h.frame, hholds]
    rw [← hnew]
    exact not_child_above
  · -- the node was there before
    have hdirectory := hbefore (h.ne_none hnew hafter)
    cases h with
    | drop =>
        -- With the directory all below it is gone, so `other` is not one of it.
        by_cases habove : place <+: other
        · exact absurd (drop_of_above (habove.trans (List.prefix_append _ _))) hafter
        · rw [drop_of_not_above habove, hdirectory]
    | mkdir =>
        by_cases hplace : other = place
        · rw [hplace, Function.update_self]
        · rw [Function.update_of_ne hplace, hdirectory]
    | clear h =>
        rw [Function.update_of_ne _, hdirectory]
        rintro rfl
        rw [h] at hdirectory
        cases hdirectory
    | write h =>
        rw [Function.update_of_ne _, hdirectory]
        rintro rfl
        exact h hdirectory

end Changes

theorem executeAll_cons :
    executeAll locate tree (command :: commands) =
      (execute locate tree command).bind fun mid => executeAll locate mid commands := rfl

/-- What each of several commands preserves, all of them preserve. -/
theorem executeAll_invariant {P : Tree → Prop}
    (hstep : ∀ command ∈ commands, ∀ tree after,
      execute locate tree command = some after → P tree → P after)
    (h : executeAll locate tree commands = some after) (htree : P tree) : P after := by
  induction commands generalizing tree with
  | nil =>
      cases h
      exact htree
  | cons command commands ih =>
      rw [List.forall_mem_cons] at hstep
      rw [executeAll_cons] at h
      obtain ⟨mid, hmid, hafter⟩ := Option.bind_eq_some_iff.mp h
      exact ih hstep.2 hafter (hstep.1 tree mid hmid htree)

/-- What no command is about does not change. -/
theorem executeAll_frame
    (hother : ∀ command ∈ commands, ∀ path, command.target? = some path → ¬ locate path <+: other)
    (h : executeAll locate tree commands = some after) : after other = tree other := by
  refine executeAll_invariant (P := fun now => now other = tree other) ?_ h rfl
  intro command hcommand now next hnext hnow
  rcases execute_cases hnext with rfl | ⟨path, hpath, hchanges⟩
  · exact hnow
  · rw [hchanges.frame (hother command hcommand path hpath), hnow]

/-- What can be carried out in full can be carried out in part. -/
theorem exists_executeAll_prefix {carried : List Command} (hcarried : carried <+: commands)
    (h : executeAll locate tree commands = some after) :
    ∃ mid, executeAll locate tree carried = some mid := by
  obtain ⟨rest, rfl⟩ := hcarried
  unfold executeAll at h ⊢
  rw [List.foldlM_append] at h
  obtain ⟨mid, hmid, -⟩ := Option.bind_eq_some_iff.mp h
  exact ⟨mid, hmid⟩

end Tree

/-! ## Trees that make a volume -/

namespace Volume

/-- With this tree in the place of its own, a volume is a volume again. -/
structure Sound (volume : Volume) (tree : Tree) : Prop where
  isDirectory : ∀ {path name}, volume.Covers path → volume.IsEntry name →
    tree (volume.locate path ++ [name]) ≠ none → tree (volume.locate path) = some .directory
  depth : ∀ {path}, volume.Covers path → ∃ depth, ∀ rel : List Name,
    (∀ name ∈ rel, volume.IsEntry name) → depth ≤ rel.length →
      tree (volume.locate path ++ rel) = none
  finite : ∀ {path}, volume.Covers path →
    {name | volume.IsEntry name ∧ tree (volume.locate path ++ [name]) ≠ none}.Finite

/-- Another volume with the same paths and places, and with the given tree. -/
structure Regrown (volume : Volume) (tree : Tree) (next : Volume) : Prop where
  tree : next.tree = tree
  locate : next.locate = volume.locate
  covers : next.Covers = volume.Covers
  isEntry : next.IsEntry = volume.IsEntry

variable {volume : Volume} {tree after : Tree} {command : Command} {commands : List Command}

theorem sound_tree (volume : Volume) : volume.Sound volume.tree where
  isDirectory {path name} hpath hname hnode := by
    rw [← volume.locate_child hpath hname] at hnode
    apply (kind_eq_directory hpath).mp
    apply Forest.kind_eq_directory_of_child hpath hname
    rwa [Ne, kind_eq_missing (volume.covers_child hpath hname)]
  depth {path} hpath := by
    obtain ⟨depth, hdepth⟩ := volume.finite hpath
    exact ⟨depth, fun rel hrel hlength => tree_eq_none hpath hrel (hdepth rel hrel hlength)⟩
  finite {path} hpath := by
    apply (volume.names path).finite_toSet.subset
    rintro name ⟨hname, hnode⟩
    rw [← volume.locate_child hpath hname] at hnode
    have hchild : volume.kind (path.child name) ≠ .missing := by
      rwa [Ne, kind_eq_missing (volume.covers_child hpath hname)]
    have hdirectory := Forest.kind_eq_directory_of_child hpath hname hchild
    exact (volume.mem_names hpath hdirectory).mpr ⟨hname, hchild⟩

/-- **A command keeps a tree sound.** -/
theorem Sound.execute (h : volume.Sound tree)
    (hexecute : tree.execute volume.locate command = some after) : volume.Sound after := by
  rcases Tree.execute_cases hexecute with rfl | ⟨target, -, hchanges⟩
  · exact h
  constructor
  · intro path name hpath hname
    exact hchanges.isDirectory (h.isDirectory hpath hname)
  · intro path hpath
    obtain ⟨depth, hdepth⟩ := h.depth hpath
    -- What is deeper than all that was there, and than the new node, is not there now.
    refine ⟨max depth ((volume.locate target).length + 1), fun rel hrel hlength => ?_⟩
    by_contra hnode
    refine hchanges.ne_none ?_ hnode (hdepth rel hrel (le_of_max_le_left hlength))
    intro heq
    have hlonger := le_of_max_le_right hlength
    rw [← heq, List.length_append] at hlonger
    omega
  · -- at most one name is new
    intro path hpath
    apply ((h.finite hpath).insert ((volume.locate target).getLast?.getD [])).subset
    rintro name ⟨hname, hnode⟩
    by_cases heq : volume.locate path ++ [name] = volume.locate target
    · left
      rw [← heq, List.getLast?_concat, Option.getD_some]
    · exact .inr ⟨hname, hchanges.ne_none heq hnode⟩

/-- **So do all commands of a plan**, and any part of them. -/
theorem Sound.executeAll (h : volume.Sound tree)
    (hexecute : tree.executeAll volume.locate commands = some after) : volume.Sound after :=
  Tree.executeAll_invariant (fun _ _ _ _ hstep hsound => Sound.execute hsound hstep) hexecute h

/-! ## Another volume -/

/-- The entries of a directory in a sound tree, in some order. -/
noncomputable def Sound.names (h : volume.Sound tree) (path : Path) : List Name :=
  open Classical in if hpath : volume.Covers path then (h.finite hpath).toFinset.toList else []

theorem Sound.mem_names (h : volume.Sound tree) {path : Path} {name : Name}
    (hpath : volume.Covers path) :
    name ∈ h.names path ↔ volume.IsEntry name ∧ tree (volume.locate path ++ [name]) ≠ none := by
  rw [names, dif_pos hpath, Finset.mem_toList, Set.Finite.mem_toFinset]
  exact Iff.rfl

noncomputable def regrow (volume : Volume) (tree : Tree) (h : volume.Sound tree) : Volume where
  tree := tree
  locate := volume.locate
  IsEntry := volume.IsEntry
  Covers := volume.Covers
  kind path := Tree.Node.kind (tree (volume.locate path))
  names := h.names
  contents path := Tree.Node.bytes (tree (volume.locate path))
  answers
    | .classify path => .ok (Tree.Node.kind (tree (volume.locate path)))
    | .list path => .ok (h.names path)
    | .same a b => .ok (decide (Tree.Node.bytes (tree (volume.locate a)) =
        Tree.Node.bytes (tree (volume.locate b))))
  entryName := volume.entryName
  covers_child := volume.covers_child
  classify_eq _ := rfl
  list_eq _ _ := rfl
  same_eq _ _ _ _ := rfl
  mem_names {path name} hpath _ := by
    rw [h.mem_names hpath]
    refine and_congr_right fun hname => ?_
    rw [volume.locate_child hpath hname, Ne, Ne, Tree.Node.kind_eq_missing]
  child_missing {path name} hpath hkind hname := by
    rw [volume.locate_child hpath hname, Tree.Node.kind_eq_missing]
    by_contra hnode
    exact hkind (Tree.Node.kind_eq_directory.mpr (h.isDirectory hpath hname hnode))
  finite {path} hpath := by
    obtain ⟨depth, hdepth⟩ := h.depth hpath
    refine ⟨depth, fun rel hrel hlength => ?_⟩
    rw [locate_below hpath hrel, Tree.Node.kind_eq_missing]
    exact hdepth rel hrel hlength
  locate_child := volume.locate_child
  kind_eq _ := rfl
  contents_eq {path bytes} _ hfile := by
    rw [hfile]
    rfl

theorem Sound.exists_regrown (h : volume.Sound tree) : ∃ next, volume.Regrown tree next :=
  ⟨volume.regrow tree h, rfl, rfl, rfl, rfl⟩

namespace Regrown

variable {next : Volume} {rules : Rules} {pair : Pair} {rel : List Name}

theorem plain (h : volume.Regrown tree next) : next.Plain rules rel ↔ volume.Plain rules rel := by
  rw [Forest.Plain, Forest.Plain, h.isEntry]

theorem coversPair (h : volume.Regrown tree next) (hpair : volume.CoversPair pair) :
    next.CoversPair pair := by
  constructor
  · rw [h.covers]
    exact hpair.source
  · rw [h.covers]
    exact hpair.destination

end Regrown

end Volume

end TreePlan

import TreePlan.Command
import TreePlan.Kind
import Mathlib.Data.List.Infix
import Mathlib.Logic.Function.Basic

/-!
# What the commands of a plan do to a tree

The reference meaning of the commands that change files. A tree says what is at each place,
where a place is given by the names on the way to it from the root; how paths name places is
left open. Each command has a requirement, and a command whose requirement does not hold
fails:

| command     | requirement                                                                |
|-------------|----------------------------------------------------------------------------|
| `rm P`      | a file at `P`                                                              |
| `rm -r P`   | a directory at `P`                                                         |
| `mkdir P`   | nothing at `P`, and a directory to hold it                                 |
| `cp -f A B` | a file at `A`, no directory at `B`, and a directory to hold it             |

The commands for the version control leave the tree as it is.

A command changes nothing but the places at or below the one it is about, so what the
commands for one destination do is independent of every place that is `Apart` from it.
-/

namespace TreePlan

/-- Where a node is: the names from the root down to it, the first one first. -/
abbrev Place := List Name

inductive Tree.Node where
  | directory
  | file (contents : Bytes)
  deriving DecidableEq, Repr

namespace Tree.Node

def kind : Option Node → Kind
  | none => .missing
  | some .directory => .directory
  | some (.file _) => .file

/-- The bytes of what is at a place, none for anything but a file. -/
def bytes : Option Node → Bytes
  | some (.file contents) => contents
  | _ => []

variable {node : Option Node}

theorem kind_eq_missing : kind node = .missing ↔ node = none := by
  rcases node with _ | _ | _ <;> simp [kind]

theorem kind_eq_directory : kind node = .directory ↔ node = some .directory := by
  rcases node with _ | _ | _ <;> simp [kind]

theorem kind_eq_file : kind node = .file ↔ ∃ contents, node = some (.file contents) := by
  rcases node with _ | _ | _ <;> simp [kind]

end Tree.Node

abbrev Tree := Place → Option Tree.Node

/-! ## Places -/

def Apart (a b : Place) : Prop := ¬ a <+: b ∧ ¬ b <+: a

instance (a b : Place) : Decidable (Apart a b) := inferInstanceAs (Decidable (_ ∧ _))

namespace Apart

variable {a b place : Place}

theorem symm (h : Apart a b) : Apart b a := And.symm h

/-- Nothing is below both of two places that are apart. -/
theorem not_above (h : Apart a b) (hb : b <+: place) : ¬ a <+: place := fun ha =>
  (List.prefix_or_prefix_of_prefix ha hb).elim h.1 h.2

theorem append (h : Apart a b) (xs ys : List Name) : Apart (a ++ xs) (b ++ ys) := by
  have hab : ∀ {a b : Place} (xs ys : List Name), Apart a b → ¬ a ++ xs <+: b ++ ys := by
    intro a b xs ys h hpre
    exact h.not_above (List.prefix_append b ys) ((List.prefix_append a xs).trans hpre)
  exact ⟨hab xs ys h, hab ys xs h.symm⟩

end Apart

theorem child_above_iff {place : Place} {m n : Name} {rel : List Name} :
    place ++ [m] <+: place ++ n :: rel ↔ m = n := by
  rw [List.prefix_append_right_inj, List.cons_prefix_cons]
  simp

/-- Different entries of one directory are apart. -/
theorem Apart.of_ne {place : Place} {m n : Name} (h : m ≠ n) :
    Apart (place ++ [m]) (place ++ [n]) :=
  ⟨fun hpre => h (child_above_iff.mp hpre), fun hpre => h (child_above_iff.mp hpre).symm⟩

theorem not_child_above {place : Place} {name : Name} :
    ¬ place ++ [name] <+: place := by
  intro h
  have hlength := h.length_le
  rw [List.length_append, List.length_singleton] at hlength
  omega

namespace Tree

/-! ## Commands -/

/-- The place can hold a node: there is a directory for it to be in. -/
def Holds (tree : Tree) (place : Place) : Prop :=
  place ≠ [] ∧ tree place.dropLast = some .directory

instance (tree : Tree) (place : Place) : Decidable (tree.Holds place) :=
  inferInstanceAs (Decidable (_ ∧ _))

def drop (tree : Tree) (place : Place) : Tree :=
  fun other => if place <+: other then none else tree other

/-- The tree after a command, if the requirement of the command holds. -/
def execute (locate : Path → Place) (tree : Tree) : Command → Option Tree
  | .remove path true =>
    if tree (locate path) = some .directory then some (tree.drop (locate path)) else none
  -- Without `-r` a directory stays.
  | .remove path false =>
    match tree (locate path) with
    | some (.file _) => some (Function.update tree (locate path) none)
    | _ => none
  | .mkdir path =>
    if tree (locate path) = none ∧ tree.Holds (locate path) then
      some (Function.update tree (locate path) (some .directory))
    else none
  | .copy source target =>
    match tree (locate source) with
    | some (.file contents) =>
      -- Into a directory the file would be copied under its own name.
      if tree (locate target) ≠ some .directory ∧ tree.Holds (locate target) then
        some (Function.update tree (locate target) (some (.file contents)))
      else none
    | _ => none
  | .delete _ | .commit _ _ | .add _ => some tree

/-- The tree after a list of commands, if the requirement of each holds when its turn comes. -/
def executeAll (locate : Path → Place) (tree : Tree) (commands : List Command) : Option Tree :=
  commands.foldlM (execute locate) tree

variable {locate : Path → Place} {tree mid after : Tree}

@[simp] theorem executeAll_singleton (command : Command) :
    executeAll locate tree [command] = execute locate tree command := by
  simp [executeAll]

theorem executeAll_append {xs ys : List Command} (hx : executeAll locate tree xs = some mid)
    (hy : executeAll locate mid ys = some after) :
    executeAll locate tree (xs ++ ys) = some after := by
  unfold executeAll at hx hy ⊢
  rw [List.foldlM_append, hx]
  exact hy

/-- Commands for the version control have no requirement and change nothing. -/
theorem executeAll_of_isVersionControl {commands : List Command}
    (h : ∀ command ∈ commands, command.isVersionControl = true) :
    executeAll locate tree commands = some tree := by
  induction commands with
  | nil => rfl
  | cons command commands ih =>
      rw [List.forall_mem_cons] at h
      have hcommand : executeAll locate tree [command] = some tree := by
        rw [executeAll_singleton]
        cases command with
        | remove | copy | mkdir => exact absurd h.1 Bool.false_ne_true
        | delete | commit | add => rfl
      exact executeAll_append hcommand (ih h.2)

section
variable {path source : Path} {contents : Bytes}

theorem execute_remove_file (h : tree (locate path) = some (.file contents)) :
    execute locate tree (.remove path false) = some (Function.update tree (locate path) none) := by
  simp [execute, h]

theorem execute_remove_directory (h : tree (locate path) = some .directory) :
    execute locate tree (.remove path true) = some (tree.drop (locate path)) := if_pos h

theorem execute_mkdir (h : tree (locate path) = none) (hholds : tree.Holds (locate path)) :
    execute locate tree (.mkdir path) =
      some (Function.update tree (locate path) (some .directory)) := if_pos ⟨h, hholds⟩

theorem execute_copy (hs : tree (locate source) = some (.file contents))
    (h : tree (locate path) ≠ some .directory) (hholds : tree.Holds (locate path)) :
    execute locate tree (.copy source path) =
      some (Function.update tree (locate path) (some (.file contents))) := by
  simp only [execute, hs]
  exact if_pos ⟨h, hholds⟩

end

/-! ## Frames -/

variable {place other : Place}

theorem drop_of_above (h : place <+: other) : tree.drop place other = none := if_pos h

theorem drop_of_not_above (h : ¬ place <+: other) : tree.drop place other = tree other := if_neg h

/-- A change at a place is none anywhere that is not at or below it. -/
theorem update_of_not_above {node : Option Node} (h : ¬ place <+: other) :
    Function.update tree place node other = tree other := by
  apply Function.update_of_ne
  rintro rfl
  exact h (List.prefix_refl _)

/-- What holds a place is not below it, so it stays a directory when only what is at or below
the place changes. -/
theorem Holds.of_frame (h : tree.Holds place)
    (hframe : ∀ other, ¬ place <+: other → after other = tree other) : after.Holds place := by
  refine ⟨h.1, ?_⟩
  rw [hframe, h.2]
  intro hpre
  have hlength := hpre.length_le
  have hpos := List.length_pos_of_ne_nil h.1
  rw [List.length_dropLast] at hlength
  omega

end Tree

end TreePlan

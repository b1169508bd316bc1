import TreePlan.Proofs.Names
import TreePlan.Proofs.Path.Below
import Mathlib.Data.List.Nodup

/-!
# Forests

A forest is a file system that stands still, never fails, and holds finite trees: a directory
lists exactly the entries that exist, nothing exists below anything else, and two files are
the same if they hold the same bytes. All that a walk over a forest does is then determined
beforehand.

* `Forest.steps` lists the actions that are taken for a pair and for all below it, in order,
  each with the names that lead to where it is taken.
* `Forest.mem_steps` says the same without any order and without recursion: an action is
  taken at a place exactly if the row of the policy for the kinds found *there* has it.
* `Forest.nodup_steps`: no action is taken twice at one place.

The second statement holds because a place where the row has anything to do lies below
directories only, on the side where it exists, and the walk goes into every directory.
-/

namespace TreePlan

/-- A file system that stands still, never fails, and holds finite trees. -/
structure Forest where
  /-- How the file system answers. -/
  answers : (q : Query) → Except Failure q.Answer
  /-- What an entry can be called. A disk leaves out `.` and `..`. -/
  IsEntry : Name → Prop
  /-- The paths that the laws are about. A disk leaves out the empty path, which names nothing
  although names are found below it. -/
  Covers : Path → Prop
  /-- What is at a path. -/
  kind : Path → Kind
  /-- The listing of a directory. -/
  names : Path → List Name
  /-- The bytes of a file. -/
  contents : Path → Bytes
  entryName : ∀ {name}, IsEntry name → EntryName name
  covers_child : ∀ {path name}, Covers path → IsEntry name → Covers (path.child name)
  classify_eq : ∀ {path}, Covers path → answers (.classify path) = .ok (kind path)
  list_eq : ∀ {path}, Covers path → kind path = .directory →
    answers (.list path) = .ok (names path)
  same_eq : ∀ {a b}, Covers a → Covers b → kind a = .file → kind b = .file →
    answers (.same a b) = .ok (decide (contents a = contents b))
  /-- A directory lists the entries that exist. -/
  mem_names : ∀ {path name}, Covers path → kind path = .directory →
    (name ∈ names path ↔ IsEntry name ∧ kind (path.child name) ≠ .missing)
  /-- Nothing exists below anything but a directory. -/
  child_missing : ∀ {path name}, Covers path → kind path ≠ .directory → IsEntry name →
    kind (path.child name) = .missing
  /-- From some depth on nothing is left. -/
  finite : ∀ {path}, Covers path → ∃ depth, ∀ rel : List Name, (∀ name ∈ rel, IsEntry name) →
    depth ≤ rel.length → kind (path.below rel) = .missing

namespace Forest

variable (forest : Forest) (rules : Rules)

/-- The forest as a file system. -/
def fileSystem : FileSystem Unit := .ofAnswers forest.answers

/-- Names that can lead from an entry to an entry below it, none of them passed over. -/
def Plain (rel : List Name) : Prop :=
  ∀ name ∈ rel, forest.IsEntry name ∧ name ∉ rules.metadataNames

structure CoversPair (pair : Pair) : Prop where
  source : forest.Covers pair.source
  destination : forest.Covers pair.destination

/-- Nothing is found `depth` or more levels below either side of a pair. -/
def Shallow (depth : Nat) (pair : Pair) : Prop :=
  ∀ rel : List Name, (∀ name ∈ rel, forest.IsEntry name) → depth ≤ rel.length →
    forest.kind (pair.source.below rel) = .missing ∧
      forest.kind (pair.destination.below rel) = .missing

def childNames (pair : Pair) : List Name :=
  Walk.visible rules
    ((if forest.kind pair.source = .directory then forest.names pair.source else []) ++
      if forest.kind pair.destination = .directory then forest.names pair.destination else [])

def stepsOf (below : Pair → List (List Name × Action)) (pair : Pair) (action : Action) :
    List (List Name × Action) :=
  if action = .recurse then
    (forest.childNames rules pair).flatMap fun name =>
      (below (pair.child name)).map fun step => (name :: step.1, step.2)
  else [([], action)]

/-- The actions for a pair and for all below it, at most `depth` levels down, in the order in
which they are taken, each with the names that lead to where it is taken. -/
def steps : (depth : Nat) → Pair → List (List Name × Action)
  | 0, _ => []
  | depth + 1, pair =>
    (policy (forest.kind pair.source) (forest.kind pair.destination)).flatMap
      (forest.stepsOf rules (steps depth) pair)

variable {forest rules}

/-! ## What exists below what -/

@[simp] theorem plain_nil : forest.Plain rules [] := fun _ h => absurd h List.not_mem_nil

@[simp] theorem plain_cons {name : Name} {rel : List Name} :
    forest.Plain rules (name :: rel) ↔
      (forest.IsEntry name ∧ name ∉ rules.metadataNames) ∧ forest.Plain rules rel :=
  List.forall_mem_cons

theorem Plain.isEntry {rel : List Name} (h : forest.Plain rules rel) :
    ∀ name ∈ rel, forest.IsEntry name := fun name hname => (h name hname).1

theorem Plain.entryName {rel : List Name} (h : forest.Plain rules rel) :
    ∀ name ∈ rel, EntryName name := fun name hname => forest.entryName (h name hname).1

theorem CoversPair.child {pair : Pair} {name : Name} (h : forest.CoversPair pair)
    (hname : forest.IsEntry name) : forest.CoversPair (pair.child name) :=
  ⟨forest.covers_child h.source hname, forest.covers_child h.destination hname⟩

theorem covers_below {path : Path} {rel : List Name} (h : forest.Covers path)
    (hrel : ∀ name ∈ rel, forest.IsEntry name) : forest.Covers (path.below rel) := by
  induction rel generalizing path with
  | nil => exact h
  | cons name rel ih =>
      rw [List.forall_mem_cons] at hrel
      exact ih (forest.covers_child h hrel.1) hrel.2

theorem CoversPair.below {pair : Pair} {rel : List Name} (h : forest.CoversPair pair)
    (hrel : ∀ name ∈ rel, forest.IsEntry name) : forest.CoversPair (pair.below rel) :=
  ⟨covers_below h.source hrel, covers_below h.destination hrel⟩

/-- What has anything below it is a directory. -/
theorem kind_eq_directory_of_child {path : Path} {name : Name} (hp : forest.Covers path)
    (hname : forest.IsEntry name) (h : forest.kind (path.child name) ≠ .missing) :
    forest.kind path = .directory := by
  by_contra hdir
  exact h (forest.child_missing hp hdir hname)

/-- Where nothing is, nothing is below. -/
theorem kind_below_of_missing {path : Path} {rel : List Name} (hp : forest.Covers path)
    (hrel : ∀ name ∈ rel, forest.IsEntry name) (h : forest.kind path = .missing) :
    forest.kind (path.below rel) = .missing := by
  induction rel generalizing path with
  | nil => exact h
  | cons name rel ih =>
      rw [List.forall_mem_cons] at hrel
      apply ih (forest.covers_child hp hrel.1) hrel.2
      refine forest.child_missing hp ?_ hrel.1
      rw [h]
      exact Kind.noConfusion

/-- What exists below a directory goes through an entry of it. -/
theorem kind_child_of_below {path : Path} {name : Name} {rel : List Name}
    (hp : forest.Covers path) (hname : forest.IsEntry name)
    (hrel : ∀ name ∈ rel, forest.IsEntry name)
    (h : forest.kind (path.below (name :: rel)) ≠ .missing) :
    forest.kind (path.child name) ≠ .missing := by
  intro hmissing
  apply h
  rw [Path.below_cons]
  exact kind_below_of_missing (forest.covers_child hp hname) hrel hmissing

/-- The children of a pair are the entries of either side that are not passed over. -/
theorem mem_childNames {pair : Pair} {name : Name} (h : forest.CoversPair pair) :
    name ∈ forest.childNames rules pair ↔
      (forest.IsEntry name ∧ name ∉ rules.metadataNames) ∧
        (forest.kind (pair.source.child name) ≠ .missing ∨
          forest.kind (pair.destination.child name) ≠ .missing) := by
  have side : ∀ {path : Path}, forest.Covers path →
      (name ∈ (if forest.kind path = .directory then forest.names path else []) ↔
        forest.IsEntry name ∧ forest.kind (path.child name) ≠ .missing) := by
    intro path hp
    split
    · next hdir => exact forest.mem_names hp hdir
    · -- what is no directory has no entries, and nothing is below it
      next hdir =>
      constructor
      · intro hmem
        exact absurd hmem List.not_mem_nil
      · rintro ⟨hname, hkind⟩
        exact absurd (kind_eq_directory_of_child hp hname hkind) hdir
  rw [childNames, Walk.mem_visible, List.mem_append, side h.source, side h.destination]
  tauto

theorem nodup_childNames (pair : Pair) : (forest.childNames rules pair).Nodup :=
  nodup_nameSet _

/-! ## Depth -/

theorem Shallow.mono {m n : Nat} {pair : Pair} (h : forest.Shallow m pair) (hmn : m ≤ n) :
    forest.Shallow n pair := fun rel hrel hlength => h rel hrel (Nat.le_trans hmn hlength)

theorem Shallow.child {depth : Nat} {pair : Pair} {name : Name}
    (h : forest.Shallow (depth + 1) pair) (hname : forest.IsEntry name) :
    forest.Shallow depth (pair.child name) := fun rel hrel hlength =>
  h (name :: rel) (List.forall_mem_cons.mpr ⟨hname, hrel⟩) (Nat.succ_le_succ hlength)

theorem exists_shallow {pair : Pair} (h : forest.CoversPair pair) :
    ∃ depth, forest.Shallow depth pair := by
  obtain ⟨m, hm⟩ := forest.finite h.source
  obtain ⟨n, hn⟩ := forest.finite h.destination
  refine ⟨max m n, fun rel hrel hlength => ⟨hm rel hrel ?_, hn rel hrel ?_⟩⟩
  · exact Nat.le_trans (Nat.le_max_left m n) hlength
  · exact Nat.le_trans (Nat.le_max_right m n) hlength

/-! ## The steps of a walk -/

section
variable {below : Pair → List (List Name × Action)} {pair : Pair}

theorem stepsOf_of_ne {action : Action} (h : action ≠ .recurse) :
    forest.stepsOf rules below pair action = [([], action)] := if_neg h

theorem stepsOf_recurse :
    forest.stepsOf rules below pair .recurse =
      (forest.childNames rules pair).flatMap fun name =>
        (below (pair.child name)).map fun step => (name :: step.1, step.2) := rfl

/-- Only `recurse` leads below a pair. -/
theorem nil_mem_stepsOf {action taken : Action} :
    ([], action) ∈ forest.stepsOf rules below pair taken ↔
      taken ≠ .recurse ∧ action = taken := by
  by_cases h : taken = .recurse
  · subst h
    simp [stepsOf_recurse]
  · simp [stepsOf_of_ne h, h]

theorem cons_mem_stepsOf {name : Name} {rel : List Name} {action taken : Action} :
    (name :: rel, action) ∈ forest.stepsOf rules below pair taken ↔
      taken = .recurse ∧ name ∈ forest.childNames rules pair ∧
        (rel, action) ∈ below (pair.child name) := by
  by_cases h : taken = .recurse
  · subst h
    simp [stepsOf_recurse]
  · simp [stepsOf_of_ne h, h]

end

theorem nil_mem_steps_succ {depth : Nat} {pair : Pair} {action : Action} :
    ([], action) ∈ forest.steps rules (depth + 1) pair ↔
      action ≠ .recurse ∧
        action ∈ policy (forest.kind pair.source) (forest.kind pair.destination) := by
  rw [steps, List.mem_flatMap]
  constructor
  · rintro ⟨taken, htaken, hmem⟩
    obtain ⟨hr, rfl⟩ := nil_mem_stepsOf.mp hmem
    exact ⟨hr, htaken⟩
  · rintro ⟨hr, htaken⟩
    exact ⟨action, htaken, nil_mem_stepsOf.mpr ⟨hr, rfl⟩⟩

theorem cons_mem_steps_succ {depth : Nat} {pair : Pair} {name : Name} {rel : List Name}
    {action : Action} :
    (name :: rel, action) ∈ forest.steps rules (depth + 1) pair ↔
      .recurse ∈ policy (forest.kind pair.source) (forest.kind pair.destination) ∧
        name ∈ forest.childNames rules pair ∧
        (rel, action) ∈ forest.steps rules depth (pair.child name) := by
  rw [steps, List.mem_flatMap]
  constructor
  · rintro ⟨taken, htaken, hmem⟩
    obtain ⟨hr, hmem⟩ := cons_mem_stepsOf.mp hmem
    exact ⟨hr ▸ htaken, hmem⟩
  · rintro ⟨htaken, hmem⟩
    exact ⟨.recurse, htaken, cons_mem_stepsOf.mpr ⟨rfl, hmem⟩⟩

/-- **The steps of a walk, place by place.** An action is taken at a place exactly if the row
for the kinds found at this place has it. -/
theorem mem_steps {depth : Nat} {pair : Pair} {rel : List Name} {action : Action}
    (hdepth : forest.Shallow depth pair) (h : forest.CoversPair pair) :
    (rel, action) ∈ forest.steps rules depth pair ↔
      forest.Plain rules rel ∧ action ≠ .recurse ∧
        action ∈ policy (forest.kind (pair.source.below rel))
          (forest.kind (pair.destination.below rel)) := by
  induction depth generalizing pair rel with
  | zero =>  -- nothing exists, so nothing is done
      constructor
      · intro hmem
        exact absurd hmem List.not_mem_nil
      · rintro ⟨hrel, -, haction⟩
        obtain ⟨hs, hd⟩ := hdepth rel hrel.isEntry (Nat.zero_le _)
        rcases exists_of_mem_policy haction with hk | hk
        · exact absurd hs hk
        · exact absurd hd hk
  | succ depth ih =>
      cases rel with
      | nil => simp [nil_mem_steps_succ]
      | cons name rest =>
          rw [cons_mem_steps_succ, mem_childNames h, plain_cons]
          constructor
          · rintro ⟨-, ⟨hname, -⟩, hstep⟩
            rw [ih (hdepth.child hname.1) (h.child hname.1)] at hstep
            exact ⟨⟨hname, hstep.1⟩, hstep.2⟩
          · rintro ⟨⟨hname, hrest⟩, hr, haction⟩
            -- What there is to act on lies below an entry of one side.
            have hexists : forest.kind (pair.source.child name) ≠ .missing ∨
                forest.kind (pair.destination.child name) ≠ .missing :=
              (exists_of_mem_policy haction).imp
                (kind_child_of_below h.source hname.1 hrest.isEntry)
                (kind_child_of_below h.destination hname.1 hrest.isEntry)
            refine ⟨?_, ⟨hname, hexists⟩, ?_⟩
            · rw [recurse_mem_policy_iff]
              exact hexists.imp (kind_eq_directory_of_child h.source hname.1)
                (kind_eq_directory_of_child h.destination hname.1)
            · exact (ih (hdepth.child hname.1) (h.child hname.1)).mpr ⟨hrest, hr, haction⟩

/-- No action is taken twice at one place. -/
theorem nodup_steps (depth : Nat) (pair : Pair) : (forest.steps rules depth pair).Nodup := by
  induction depth generalizing pair with
  | zero => exact List.nodup_nil
  | succ depth ih =>
      rw [steps, List.nodup_flatMap]
      refine ⟨fun action _ => ?_, (nodup_policy _ _).imp fun {a b} hab => ?_⟩
      · -- within one action
        by_cases hr : action = .recurse
        · subst hr
          rw [stepsOf_recurse, List.nodup_flatMap]
          refine ⟨fun name _ => (ih _).map ?_, (nodup_childNames pair).imp fun {m n} hmn => ?_⟩
          · intro x y hxy
            simpa [Prod.ext_iff] using hxy
          · -- The steps of two children differ in the first name.
            intro step hm hn
            obtain ⟨x, -, rfl⟩ := List.mem_map.mp hm
            obtain ⟨y, -, heq⟩ := List.mem_map.mp hn
            exact hmn (List.cons.inj (congrArg Prod.fst heq)).1.symm
        · -- any other action is one step
          rw [stepsOf_of_ne hr]
          exact List.nodup_singleton _
      · -- two actions of a row have no step in common
        rintro ⟨rel, action⟩ ha hb
        cases rel with
        | nil => exact hab ((nil_mem_stepsOf.mp ha).2.symm.trans (nil_mem_stepsOf.mp hb).2)
        | cons => exact hab ((cons_mem_stepsOf.mp ha).1.trans (cons_mem_stepsOf.mp hb).1.symm)

end Forest

end TreePlan

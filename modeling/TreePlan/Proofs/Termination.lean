import TreePlan.Proofs.Course.Place
import TreePlan.Proofs.Events
import TreePlan.Proofs.Parallel
import TreePlan.Proofs.Truncation

/-!
# Walks come to an end

Each task of a walk may bring any number of new ones, so it is not the number of the tasks that
gets less. What gets less is how far down the walk can still go: where no directory is found from
some depth on, the walk by recursion goes that deep and no deeper (`ends_visit`), and then
some number of tasks is enough for it, by `exists_stable_budget`. Where all walks end a
synchronisation does, for there is nothing in it to go on for ever besides (`exists_budget_sync`).

A table has finitely many directories, each under a text of its own, and the text of a path gets
longer with each name. So walks over tables end, whatever the tables hold and wherever their
answers fail (`walk_ends_on_table`).
-/

namespace TreePlan

variable {σ τ α β : Type} {fs : FileSystem σ} {out : Sink τ} {rules : Rules}

/-! ## Dialogues that always conclude -/

namespace Dialogue

def Ends (fs : FileSystem σ) (out : Sink τ) (d : Dialogue α) : Prop :=
  ∀ start, d.concludes fs out start = true

theorem ends_done (value : α) : Ends fs out (.done value) := fun _ => rfl

theorem ends_request (r : Request) : Ends fs out (request r) := concludes_request fs r

/-- One dialogue after another concludes, if the second one does with whatever the first one can
result in. -/
theorem Ends.bind_of_stays {P : Request → Prop} {Q : α → Prop} {d : Dialogue α}
    {f : α → Dialogue β} (hd : Ends fs out d) (hstays : Stays fs.Gives P Q d)
    (hf : ∀ value, Q value → Ends fs out (f value)) : Ends fs out (d >>= f) := by
  intro start
  rw [concludes_bind]
  rcases hrun : d.run fs out start with ⟨failure | value, after⟩
  · exact hd start
  · exact hf value (hstays.of_run_ok (fun _ _ => id) hrun) after

theorem Ends.bind {d : Dialogue α} {f : α → Dialogue β} (hd : Ends fs out d)
    (hf : ∀ value, Ends fs out (f value)) : Ends fs out (d >>= f) :=
  hd.bind_of_stays (d.only_true.stays fs.Gives) fun value _ => hf value

theorem ends_forM {ι : Type} {f : ι → Dialogue Unit} {xs : List ι}
    (h : ∀ x ∈ xs, Ends fs out (f x)) : Ends fs out (forM xs f) := by
  induction xs with
  | nil => exact ends_done ()
  | cons x xs ih =>
      obtain ⟨hfirst, hrest⟩ := List.forall_mem_cons.mp h
      rw [List.forM_cons]
      exact hfirst.bind fun _ => ih hrest

end Dialogue

open Dialogue

/-! ## The parts of a walk -/

theorem ends_requireText (path : Path) : Ends fs out (Walk.requireText path) := by
  intro start
  unfold Walk.requireText
  split <;> rfl

theorem ends_kindAt (gone : Bool) (path : Path) : Ends fs out (Walk.kindAt gone path) := by
  cases gone with
  | true => exact ends_done _
  | false => exact ends_request _

theorem ends_entriesAt (kind : Kind) (path : Path) : Ends fs out (Walk.entriesAt kind path) := by
  unfold Walk.entriesAt
  split
  · exact ends_request _
  · exact ends_done _

theorem ends_childNames (pair : Pair) (source destination : Kind) :
    Ends fs out (Walk.childNames rules pair source destination) :=
  (ends_entriesAt _ _).bind fun _ => (ends_entriesAt _ _).bind fun _ => ends_done _

/-- An action concludes, if the visits of the children do that it may lead to. -/
theorem ends_act {below : Pair → Bool → Bool → Dialogue Unit} {pair : Pair}
    {source destination : Kind}
    (hbelow : ∀ name, Listed fs.Gives rules pair source destination name →
      Ends fs out (below (pair.child name) (source != .directory) (destination != .directory)))
    (action : Action) : Ends fs out (Recursive.act rules below pair source destination action) := by
  cases action with
  | remove | copy | mkdir | queueAdd | queueDelete => exact ends_request _
  | flagConflict => exact (ends_request _).bind fun _ => ends_request _
  | copyIfDifferent =>
      refine (ends_request _).bind fun equal => ?_
      cases equal with
      | true => exact ends_done _
      | false => exact ends_request _
  | recurse =>
      refine (ends_childNames _ _ _).bind_of_stays (stays_childNames _ _ _) fun names hnames => ?_
      exact ends_forM fun name hname => hbelow name (hnames name hname)

theorem stays_found {may : (q : Query) → q.Answer → Prop} (gone : Bool) (path : Path) :
    Stays may (fun _ => True) (Found may gone path) (Walk.kindAt gone path) := by
  cases gone with
  | true => exact .done rfl
  | false =>
      have hasked : Stays may (fun _ => True) (Request.May may (.ask (.classify path)))
          (request (.ask (.classify path))) := .request trivial
      exact hasked

/-! ## Walks that find no directory far down -/

/-- On either side no directory is found `depth` or more levels below the pair, where the names on
the way are such as there are in listings. -/
def Bottomed (fs : FileSystem σ) (IsName : Name → Prop) (depth : Nat) (pair : Pair) : Prop :=
  ∀ rel : List Name, (∀ name ∈ rel, IsName name) → depth ≤ rel.length →
    ¬ fs.Gives (.classify (pair.source.below rel)) .directory ∧
      ¬ fs.Gives (.classify (pair.destination.below rel)) .directory

/-- What a walk finds to be a directory is there. -/
theorem Found.gives {gone : Bool} {path : Path} (h : Found fs.Gives gone path .directory) :
    fs.Gives (.classify path) .directory := by
  cases gone with
  | true => exact absurd (show Kind.directory = .missing from h) nofun
  | false => exact h

/-- A visit concludes, if the visits of the children do to which the kinds of both sides lead. -/
theorem ends_visit_succ {depth : Nat} {pair : Pair} {sourceGone destinationGone : Bool}
    (hbelow : ∀ source destination, Found fs.Gives sourceGone pair.source source →
      Found fs.Gives destinationGone pair.destination destination →
      ∀ name, Listed fs.Gives rules pair source destination name →
        Ends fs out (Recursive.visit rules depth (pair.child name) (source != .directory)
          (destination != .directory))) :
    Ends fs out (Recursive.visit rules (depth + 1) pair sourceGone destinationGone) := by
  rw [Recursive.visit]
  refine (ends_requireText _).bind fun _ => (ends_requireText _).bind fun _ => ?_
  refine (ends_kindAt _ _).bind_of_stays (stays_found _ _) fun source hsource => ?_
  refine (ends_kindAt _ _).bind_of_stays (stays_found _ _) fun destination hdestination => ?_
  refine (ends_request _).bind fun _ => ends_forM fun action _ => ends_act ?_ action
  exact hbelow source destination hsource hdestination

section
variable {IsName : Name → Prop} {depth : Nat} {pair : Pair}

theorem Bottomed.child {name : Name} (h : Bottomed fs IsName (depth + 1) pair)
    (hname : IsName name) : Bottomed fs IsName depth (pair.child name) := fun rel hrel hlength =>
  h (name :: rel) (List.forall_mem_cons.mpr ⟨hname, hrel⟩) (Nat.succ_le_succ hlength)

variable (hlist : ∀ path names, fs.Gives (.list path) names → ∀ name ∈ names, IsName name)
include hlist

/-- **A visit does not get deeper than there are directories.** -/
theorem ends_visit {sourceGone destinationGone : Bool} (h : Bottomed fs IsName depth pair) :
    Ends fs out (Recursive.visit rules (depth + 1) pair sourceGone destinationGone) := by
  induction depth generalizing pair sourceGone destinationGone with
  | zero =>
      -- neither side is a directory, so there are no children
      obtain ⟨hs, hd⟩ := h [] (List.forall_mem_nil _) (Nat.le_refl 0)
      refine ends_visit_succ fun source destination hsource hdestination name hlisted => ?_
      obtain ⟨-, ⟨rfl, -⟩ | ⟨rfl, -⟩⟩ := hlisted
      · exact absurd hsource.gives hs
      · exact absurd hdestination.gives hd
  | succ depth ih =>
      refine ends_visit_succ fun _ _ _ _ name hlisted => ih (h.child ?_)
      obtain ⟨-, ⟨-, names, hgives, hname⟩ | ⟨-, names, hgives, hname⟩⟩ := hlisted
      · exact hlist _ names hgives name hname
      · exact hlist _ names hgives name hname

/-- Where no directory is found from some depth on, a walk comes to an end, and more budget makes
no difference to it. -/
theorem exists_budget_of_bottomed (h : Bottomed fs IsName depth pair) (rules : Rules) (out : Sink τ)
    (start : Run σ τ) :
    ∃ budget, ∀ more, budget ≤ more →
      (walk rules more pair).concludes fs out start = true ∧
        (walk rules more pair).run fs out start = (walk rules budget pair).run fs out start := by
  have hrecursion : (Recursive.walk rules (depth + 1) pair).concludes fs out start = true :=
    ends_visit hlist h start
  exact exists_stable_budget hrecursion

end

/-! ## Synchronisations -/

namespace Sync

theorem ends_emitAll (commands : List Command) : Ends fs out (emitAll commands) := by
  induction commands with
  | nil => exact ends_done ()
  | cons command commands ih => exact (ends_request _).bind fun _ => ih

theorem ends_conclude (commands : List Command) : Ends fs out (conclude commands) :=
  (ends_emitAll commands).bind fun _ =>
    (ends_request _).bind fun _ => (ends_request _).bind fun _ => ends_done _

/-- A smaller budget cuts the walks short, and nothing else. -/
theorem walkAll_cutOf_of_le {budget more : Nat} (hmore : budget ≤ more) (pairs : List Pair) :
    CutOf (walkAll rules budget pairs) (walkAll rules more pairs) := by
  induction pairs with
  | nil => exact .refl _
  | cons pair pairs ih =>
      exact (CutOf.refl _).bind fun _ => (walk_cutOf_of_le pair hmore).bind fun _ => ih

/-- For each of the walks there is a budget, and the largest one is enough for all. -/
theorem exists_budget_walkAll {pairs : List Pair}
    (hwalks : ∀ pair ∈ pairs, ∀ start, ∃ budget,
      (walk rules budget pair).concludes fs out start = true)
    (start : Run σ τ) : ∃ budget, (walkAll rules budget pairs).concludes fs out start = true := by
  induction pairs generalizing start with
  | nil => exact ⟨0, rfl⟩
  | cons pair pairs ih =>
      obtain ⟨hwalk, hrest⟩ := List.forall_mem_cons.mp hwalks
      let logged := start.happened (.logged (.reconciling pair))
      obtain ⟨first, hfirst⟩ := hwalk logged
      -- The budget of the others depends on where this walk ends, and that is settled now.
      have hgoal : ∀ budget, (walkAll rules budget (pair :: pairs)).concludes fs out start =
          (walk rules budget pair >>= fun _ => walkAll rules budget pairs).concludes fs out
            logged := by
        intro budget
        rw [walkAll, concludes_bind, run_log]
      rcases hrun : (walk rules first pair).run fs out logged with ⟨failure | ⟨⟩, mid⟩
      · -- this walk ends the run
        refine ⟨first, ?_⟩
        rw [hgoal, concludes_bind, hrun]
        exact hfirst
      · -- the others begin where it ends
        obtain ⟨others, hothers⟩ := ih hrest mid
        have hle := Nat.le_max_left first others
        refine ⟨max first others, ?_⟩
        rw [hgoal, concludes_bind, ((walk_cutOf_of_le pair hle).run_eq hfirst).2, hrun]
        exact ((walkAll_cutOf_of_le (Nat.le_max_right first others) pairs).run_eq hothers).1

/-- **A synchronisation ends where its walks do**, and more budget makes no difference to it. -/
theorem exists_budget_sync {pairs : List Pair}
    (hwalks : ∀ pair ∈ pairs, ∀ start, ∃ budget,
      (walk rules budget pair).concludes fs out start = true)
    (start : Run σ τ) :
    ∃ budget, ∀ more, budget ≤ more →
      (sync rules more pairs).concludes fs out start = true ∧
        (sync rules more pairs).run fs out start = (sync rules budget pairs).run fs out start := by
  obtain ⟨budget, hb⟩ := exists_budget_walkAll hwalks start
  have hsync : ∀ n, sync rules n pairs = walkAll rules n pairs >>= fun _ =>
      review >>= fun gathered => conclude (batches rules gathered) := fun _ => rfl
  have hends : (sync rules budget pairs).concludes fs out start = true := by
    rw [hsync, concludes_bind]
    rcases (walkAll rules budget pairs).run fs out start with ⟨failure | ⟨⟩, walked⟩
    · exact hb
    · exact ((ends_request _).bind fun _ => ends_conclude _) walked
  refine ⟨budget, fun more hmore => ?_⟩
  have hcut : CutOf (sync rules budget pairs) (sync rules more pairs) := by
    rw [hsync, hsync]
    exact (walkAll_cutOf_of_le hmore pairs).bind fun _ => .refl _
  exact hcut.run_eq hends

end Sync

/-! ## Tables -/

namespace Table

/-- The file system answers as the table does, faults aside, or fails, whenever it likes. -/
def Backs (table : Table) (fs : FileSystem σ) : Prop :=
  ∀ query answer, fs.Gives query answer → { table with faults := [] }.answer query = .ok answer

/-- The text of a path with an entry is no longer than the longest in the table. -/
theorem exists_longest (table : Table) :
    ∃ longest, ∀ path, table.kind path = .directory → path.bytes.length ≤ longest := by
  have hentries : ∃ longest, ∀ entry ∈ table.entries, entry.1.bytes.length ≤ longest := by
    induction table.entries with
    | nil => exact ⟨0, List.forall_mem_nil _⟩
    | cons entry entries ih =>
        obtain ⟨longest, hlongest⟩ := ih
        refine ⟨max longest entry.1.bytes.length, List.forall_mem_cons.mpr ⟨?_, fun other h => ?_⟩⟩
        · exact Nat.le_max_right _ _
        · exact Nat.le_trans (hlongest other h) (Nat.le_max_left _ _)
  obtain ⟨longest, hlongest⟩ := hentries
  refine ⟨longest, fun path hkind => ?_⟩
  rcases hentry : table.entry? path with _ | entry
  · rw [kind, hentry] at hkind
    cases hkind
  · obtain ⟨before, after, heq, -⟩ := List.lookup_eq_some_iff.mp hentry
    exact hlongest (path, entry) (by simp [heq])

theorem exists_bottomed {table : Table} (hbacks : table.Backs fs) (pair : Pair) :
    ∃ depth, Bottomed fs Segment depth pair := by
  obtain ⟨longest, hlongest⟩ := table.exists_longest
  refine ⟨longest + 1, fun rel hrel hlength => ?_⟩
  have hside : ∀ base : Path, ¬ fs.Gives (.classify (base.below rel)) .directory := by
    intro base hgives
    have hkind : table.kind (base.below rel) = .directory := Except.ok.inj (hbacks _ _ hgives)
    have hshort := hlongest _ hkind
    have hlong := base.add_length_le_bytes_below hrel
    omega
  exact ⟨hside pair.source, hside pair.destination⟩

theorem backs_fileSystem (table : Table) : table.Backs table.fileSystem := by
  rintro query answer ⟨files, after, hanswer⟩
  rw [fileSystem_eq_withFaults, FileSystem.withFaults] at hanswer
  dsimp only at hanswer
  split at hanswer
  · cases hanswer
  · exact congrArg Prod.fst hanswer

end Table

/-- **Walks over tables end.** Take any table in the listings of which there are only names that are
not empty and hold no separator, whatever else is in it, and a file system that answers as the table
does, or fails, whenever it likes. Then any walk, with any rules, sink and session, ends after
finitely many tasks, and a larger budget makes no difference to it. -/
theorem walk_ends_on_table {table : Table}
    (hnames : ∀ entry ∈ table.entries, ∀ name ∈ table.names entry.1, Segment name)
    {fs : FileSystem σ} (hbacks : table.Backs fs) (rules : Rules) (pair : Pair) (out : Sink τ)
    (start : Run σ τ) :
    ∃ budget, ∀ more, budget ≤ more →
      (walk rules more pair).concludes fs out start = true ∧
        (walk rules more pair).run fs out start = (walk rules budget pair).run fs out start := by
  obtain ⟨depth, hdepth⟩ := Table.exists_bottomed hbacks pair
  refine exists_budget_of_bottomed (fun path names hgives name hname => ?_) hdepth rules out start
  have hlisted : { table with faults := [] }.fileSystem.Gives (.list path) names :=
    ⟨(), (), Prod.ext (hbacks _ _ hgives) rfl⟩
  exact Table.segment_of_gives { table with faults := [] } hnames path names hlisted name hname

/-- A directory that lists a name without an entry, a directory that is found under two texts, one
of them in no listing, and a question that fails. -/
theorem walk_ends_on_table_inconsistent :
    let table : Table :=
      ⟨[(.ofString "s", .directory [[0x61], [0x62]]), (.ofString "s/a", .directory [[0x61]]),
        (.ofString "s//a", .directory [[0x61]]), (.ofString "d/", .directory [])],
        [((.classify, .ofString "d/b"), .io .empty .noEntry)]⟩
    let pair : Pair := ⟨.ofString "s", .ofString "d/"⟩
    (∀ entry ∈ table.entries, ∀ name ∈ table.names entry.1, Segment name) ∧
      table.Backs table.fileSystem ∧
      ∃ budget, ∀ more, budget ≤ more →
        (walk {} more pair).concludes table.fileSystem (.collect none)
          ⟨(), #[], {}, #[]⟩ = true := by
  intro table pair
  have hnames : ∀ entry ∈ table.entries, ∀ name ∈ table.names entry.1, Segment name := by
    decide +kernel
  obtain ⟨budget, hends⟩ := walk_ends_on_table hnames table.backs_fileSystem {} pair (.collect none)
    ⟨(), #[], {}, #[]⟩
  exact ⟨hnames, table.backs_fileSystem, budget, fun more hmore => (hends more hmore).1⟩

end TreePlan

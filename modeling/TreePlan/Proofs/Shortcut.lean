import TreePlan.Proofs.Course.Place
import TreePlan.Proofs.Events
import TreePlan.Proofs.Parallel
import TreePlan.Proofs.Recursion
import TreePlan.Proofs.Transcript

/-!
# Queries that need not be asked

Where one side of a pair is no directory, the walk takes it for granted that nothing is below it
there. The walk `Recursive.thorough` does not: it classifies both sides of every pair that it
visits. This module shows that the difference is in the queries alone.

* `FileSystem.Treelike` is what makes the shortcut right: nothing is found in what is no directory.
* `Coupling.omitting` couples a run with one in which some more queries were asked.
* `alike_visit` keeps the two walks in step: a side that is known to be missing is `Bare`.
* `walk_spares_queries` is the comparison, from either walk to the other.
-/

namespace TreePlan

variable {σ τ α β : Type} {fs : FileSystem σ} {out : Sink τ} {rules : Rules}

/-! ## Lists with elements left out -/

/-- The first list is the second one without some of the elements that `P` holds of. -/
inductive Omits (P : α → Prop) : List α → List α → Prop
  | nil : Omits P [] []
  | keep (x : α) {xs ys : List α} (h : Omits P xs ys) : Omits P (x :: xs) (x :: ys)
  | skip {x : α} {xs ys : List α} (hx : P x) (h : Omits P xs ys) : Omits P xs (x :: ys)

namespace Omits

variable {P : α → Prop} {xs ys us vs : List α}

theorem refl (xs : List α) : Omits P xs xs := by
  induction xs with
  | nil => exact .nil
  | cons x _ ih => exact .keep x ih

theorem append (h : Omits P xs ys) (h' : Omits P us vs) : Omits P (xs ++ us) (ys ++ vs) := by
  induction h with
  | nil => exact h'
  | keep x _ ih => exact .keep x ih
  | skip hx _ ih => exact .skip hx ih

/-- The same is seen of both lists if nothing is seen of what is left out. -/
theorem filterMap_eq {f : α → Option β} (h : Omits P xs ys) (hf : ∀ x, P x → f x = none) :
    xs.filterMap f = ys.filterMap f := by
  induction h with
  | nil => rfl
  | keep x _ ih => rw [List.filterMap_cons, List.filterMap_cons, ih]
  | skip hx _ ih => rw [List.filterMap_cons_none (hf _ hx), ih]

end Omits

/-- A path was classified, and nothing was there. -/
def Answered.IsMissing (answered : Answered) : Prop :=
  ∃ path, answered = ⟨.classify path, .ok .missing⟩

def Event.IsClassify (event : Event) : Prop := ∃ path, event = .asked (.classify path)

/-! ## File systems that are like trees -/

namespace FileSystem

variable (fs)

def Names (name : Name) : Prop := ∃ path names, fs.Gives (.list path) names ∧ name ∈ names

/-- The file system comes from the first state to the second by giving answers. -/
inductive Later (files : σ) : σ → Prop
  | now : Later files files
  | answer {later : σ} (h : Later files later) (query : Query) :
      Later files (fs.answer query later).2

/-- From now on there is nothing at the path, and to ask about it makes no difference. -/
def Bare (path : Path) (files : σ) : Prop :=
  ∀ later, fs.Later files later → fs.answer (.classify path) later = (.ok .missing, later)

/-- What was found to be missing or to be a file has nothing in it, and so nothing below it. Of a
file system that stands still this is all that is said; any other one has to stay like that, and
must not be changed by a question about what is not there. -/
def Treelike : Prop :=
  ∀ path files kind after, fs.answer (.classify path) files = (.ok kind, after) →
    kind ≠ .directory → ∀ name, fs.Names name → fs.Bare (path.child name) after

variable {fs}

theorem Later.trans {files mid later : σ} (h : fs.Later files mid) (h' : fs.Later mid later) :
    fs.Later files later := by
  induction h' with
  | now => exact h
  | answer _ query ih => exact .answer ih query

theorem Bare.later {path : Path} {files later : σ} (h : fs.Bare path files)
    (hlater : fs.Later files later) : fs.Bare path later :=
  fun _ hfurther => h _ (hlater.trans hfurther)

theorem later_reply (fs : FileSystem σ) (out : Sink τ) (r : Request) (start : Run σ τ) :
    fs.Later start.files (Run.reply fs out r start).2.files := by
  cases r with
  | ask query => exact .answer .now query
  | log | note | review => exact .now
  | emit command =>
      simp only [Run.reply]
      rcases out.accept command start.sink with ⟨cause | ⟨⟩, sink⟩
      · exact .now
      · exact .now

/-- In a run a file system only gives answers. -/
theorem later_run (fs : FileSystem σ) (out : Sink τ) (d : Dialogue α) (start : Run σ τ) :
    fs.Later start.files (d.run fs out start).2.files :=
  d.only_true.keeps (fun run => fs.Later start.files run.files)
    (fun r _ run h => h.trans (later_reply fs out r run)) .now

end FileSystem

/-! ## A walk that takes nothing for granted -/

namespace Recursive

/-- Visits a pair and everything below it, at most `depth` levels down, and classifies both sides of
every pair. -/
def thorough (rules : Rules) : (depth : Nat) → Pair → Dialogue Unit
  | 0, _ => .fail .exhausted
  | depth + 1, pair => do
    Walk.requireText pair.source
    Walk.requireText pair.destination
    let source ← .classify pair.source
    let destination ← .classify pair.destination
    .log (.visiting source destination pair)
    forM (policy source destination)
      (act rules (fun child _ _ => thorough rules depth child) pair source destination)

end Recursive

/-! ## Two walks in step -/

/-- Two runs with one file system, where more queries were asked in the second one. -/
def Coupling.omitting (σ : Type) : Coupling (List Answered × σ) (List Answered × σ) where
  files one two := Omits Answered.IsMissing one.1 two.1 ∧ one.2 = two.2
  events := Omits Event.IsClassify
  push event h := h.append (.refl [event])

section
open Dialogue
variable {one two : Run (List Answered × σ) τ}

theorem omitting_answers (query : Query) :
    (Coupling.omitting σ).Answers fs.watch fs.watch query := by
  rintro ⟨heard, files⟩ ⟨heard', files'⟩ ⟨homits, hfiles⟩
  obtain rfl : files = files' := hfiles
  exact ⟨rfl, homits.append (.refl _), rfl⟩

/-- Any dialogue does the same in both runs. -/
theorem alike_self (d : Dialogue α) (h : (Coupling.omitting σ).Holds one two) :
    Alike (Coupling.omitting σ) fs.watch fs.watch out d d one two :=
  alike_of_only d.only_true (fun query _ => omitting_answers query) h

/-- **The shortcut.** What is bare need not be classified. -/
theorem alike_kindAt_classify (gone : Bool) {path : Path}
    (hgone : gone = true → fs.Bare path two.files.2) (h : (Coupling.omitting σ).Holds one two) :
    Alike (Coupling.omitting σ) fs.watch fs.watch out (Walk.kindAt gone path) (classify path)
      one two := by
  cases gone with
  | false => exact alike_self _ h  -- both ask
  | true =>  -- only the second one asks
      have hanswer : fs.answer (.classify path) two.files.2 = (.ok .missing, two.files.2) :=
        hgone rfl _ .now
      have hrun : (classify path).run fs.watch out two = (.ok .missing,
          { two with
            files := (two.files.1 ++ [⟨.classify path, .ok .missing⟩], two.files.2)
            events := two.events.push (.asked (.classify path)) }) := by
        rw [classify, run_request]
        simp only [Run.reply, FileSystem.watch, hanswer]
      constructor
      · exact (concludes_request _ _ _).symm
      · rw [hrun]
        rfl
      · rw [hrun]
        have hheard := h.files.1.append (.skip ⟨path, rfl⟩ .nil : Omits _ [] [⟨.classify path, _⟩])
        have hevents := h.events.append
          (.skip ⟨path, rfl⟩ .nil : Omits _ [] [.asked (.classify path)])
        rw [List.append_nil] at hheard hevents
        refine ⟨⟨hheard, h.files.2⟩, h.sink, h.session, ?_⟩
        rw [Array.toList_push]
        exact hevents

theorem later_run_watch (fs : FileSystem σ) (out : Sink τ) (d : Dialogue α)
    (start : Run (List Answered × σ) τ) :
    fs.Later start.files.2 (d.run fs.watch out start).2.files.2 := by
  have hlater := FileSystem.later_run fs out d start.unheard
  rw [run_heard] at hlater
  exact hlater

/-- `Alike.bind`, with the way that the file system goes. -/
theorem alike_bind {d e : Dialogue α} {f g : α → Dialogue β}
    (h : Alike (Coupling.omitting σ) fs.watch fs.watch out d e one two)
    (hnext : ∀ value one' two', e.run fs.watch out two = (.ok value, two') →
      fs.Later two.files.2 two'.files.2 → (Coupling.omitting σ).Holds one' two' →
        Alike (Coupling.omitting σ) fs.watch fs.watch out (f value) (g value) one' two') :
    Alike (Coupling.omitting σ) fs.watch fs.watch out (d >>= f) (e >>= g) one two := by
  apply h.bind
  intro value one' two' _ hrun
  have hlater := later_run_watch fs out e two
  rw [hrun] at hlater
  exact hnext value one' two' hrun hlater

/-- Below a path that was classified, all is bare unless there is a directory. -/
theorem bare_child_of_classify (hfs : fs.Treelike) {path : Path} {kind : Kind}
    {after : Run (List Answered × σ) τ}
    (hrun : (classify path).run fs.watch out two = (.ok kind, after)) (hkind : kind ≠ .directory)
    {name : Name} (hname : fs.Names name) : fs.Bare (path.child name) after.files.2 := by
  rw [classify, run_request] at hrun
  have hanswer : (fs.answer (.classify path) two.files.2).1 = .ok kind := congrArg Prod.fst hrun
  have hafter : (fs.answer (.classify path) two.files.2).2 = after.files.2 :=
    congrArg (fun reply => reply.2.files.2) hrun
  exact hfs path two.files.2 kind _ (Prod.ext hanswer hafter) hkind name hname

/-- A list is gone through alike if each of its elements is, wherever the file system is by then. -/
theorem alike_forM {γ : Type} {f g : γ → Dialogue Unit} {files : σ} (xs : List γ)
    (hstep : ∀ x ∈ xs, ∀ one two : Run (List Answered × σ) τ, fs.Later files two.files.2 →
      (Coupling.omitting σ).Holds one two →
        Alike (Coupling.omitting σ) fs.watch fs.watch out (f x) (g x) one two)
    (hlater : fs.Later files two.files.2) (h : (Coupling.omitting σ).Holds one two) :
    Alike (Coupling.omitting σ) fs.watch fs.watch out (forM xs f) (forM xs g) one two := by
  induction xs generalizing one two with
  | nil => exact alike_done () h
  | cons x xs ih =>
      rw [List.forall_mem_cons] at hstep
      rw [List.forM_cons, List.forM_cons]
      apply alike_bind (hstep.1 one two hlater h)
      intro _ one' two' _ hfurther h
      exact ih hstep.2 (hlater.trans hfurther) h

/-- Only names that are listed are visited. -/
theorem names_of_childNames {pair : Pair} {source destination : Kind} {names : List Name}
    {start finish : Run (List Answered × σ) τ}
    (hrun : (Walk.childNames rules pair source destination).run fs.watch out start =
      (.ok names, finish)) : ∀ name ∈ names, fs.Names name := by
  have hgives : ∀ query answer, fs.watch.Gives query answer → fs.Gives query answer := by
    rintro query answer ⟨files, after, hanswer⟩
    have hgiven : (fs.answer query files.2).1 = .ok answer := congrArg Prod.fst hanswer
    exact ⟨files.2, _, Prod.ext hgiven rfl⟩
  intro name hname
  have hlisted := (stays_childNames pair source destination).of_run_ok hgives hrun name hname
  rcases hlisted.2 with ⟨-, listing, hgiven, hmem⟩ | ⟨-, listing, hgiven, hmem⟩
  · exact ⟨_, listing, hgiven, hmem⟩
  · exact ⟨_, listing, hgiven, hmem⟩

/-- An action is taken alike if the children are visited alike. -/
theorem alike_act {visit : Pair → Bool → Bool → Dialogue Unit} {whole : Pair → Dialogue Unit}
    {pair : Pair} {source destination : Kind} {files : σ}
    (hvisit : ∀ name, fs.Names name → ∀ one two : Run (List Answered × σ) τ,
      fs.Later files two.files.2 → (Coupling.omitting σ).Holds one two →
        Alike (Coupling.omitting σ) fs.watch fs.watch out
          (visit (pair.child name) (source != .directory) (destination != .directory))
          (whole (pair.child name)) one two)
    (action : Action) (hlater : fs.Later files two.files.2)
    (h : (Coupling.omitting σ).Holds one two) :
    Alike (Coupling.omitting σ) fs.watch fs.watch out
      (Recursive.act rules visit pair source destination action)
      (Recursive.act rules (fun child _ _ => whole child) pair source destination action)
      one two := by
  cases action with
  | recurse =>
      apply alike_bind (alike_self _ h)
      intro names one' two' hrun hfurther h
      apply alike_forM names _ (hlater.trans hfurther) h
      intro name hname
      exact hvisit name (names_of_childNames hrun name hname)
  | remove | copy | copyIfDifferent | mkdir | queueAdd | queueDelete | flagConflict =>
      exact alike_self _ h

/-- **Two walks in step.** Both visit the same pairs; a side that is known to be missing is bare. -/
theorem alike_visit (hfs : fs.Treelike) (depth : Nat) {pair : Pair}
    {sourceGone destinationGone : Bool}
    (hsource : sourceGone = true → fs.Bare pair.source two.files.2)
    (hdestination : destinationGone = true → fs.Bare pair.destination two.files.2)
    (h : (Coupling.omitting σ).Holds one two) :
    Alike (Coupling.omitting σ) fs.watch fs.watch out
      (Recursive.visit rules depth pair sourceGone destinationGone)
      (Recursive.thorough rules depth pair) one two := by
  induction depth generalizing pair sourceGone destinationGone one two with
  | zero => exact alike_fail _ h
  | succ depth ih =>
      rw [Recursive.visit, Recursive.thorough]
      apply alike_bind (alike_self _ h)
      intro _ one₁ two₁ _ hlater₁ h
      apply alike_bind (alike_self _ h)
      intro _ one₂ two₂ _ hlater₂ h
      -- What was bare at the start is bare later on, whatever was asked in between.
      have hlater := hlater₁.trans hlater₂
      apply alike_bind
        (alike_kindAt_classify sourceGone (fun hgone => (hsource hgone).later hlater) h)
      intro source one₃ two₃ hrun₃ hlater₃ h
      have hlater := hlater.trans hlater₃
      apply alike_bind
        (alike_kindAt_classify destinationGone (fun hgone => (hdestination hgone).later hlater) h)
      intro destination one₄ two₄ hrun₄ hlater₄ h
      apply alike_bind (alike_self _ h)
      intro _ one₅ two₅ _ hlater₅ h
      apply alike_forM _ _ .now h
      intro action _ one two hlater h
      apply alike_act _ action hlater h
      intro name hname one two hlater h
      apply ih _ _ h
      · intro hgone
        have hbare := bare_child_of_classify hfs hrun₃ (bne_iff_ne.mp hgone) hname
        exact hbare.later ((hlater₄.trans hlater₅).trans hlater)
      · intro hgone
        have hbare := bare_child_of_classify hfs hrun₄ (bne_iff_ne.mp hgone) hname
        exact hbare.later (hlater₅.trans hlater)

end

/-! ## The walk that goes on asking -/

/-- One dialogue does what the other one does, and gets the same answers, but it leaves out some
questions whose answer is that nothing is there. -/
structure Dialogue.Spares (fs : FileSystem σ) (out : Sink τ) (d e : Dialogue α) (start : Run σ τ) :
    Prop where
  result : (d.run fs out start).1 = (e.run fs out start).1
  commands : (d.run fs out start).2.commands = (e.run fs out start).2.commands
  records : (d.run fs out start).2.records = (e.run fs out start).2.records
  session : (d.run fs out start).2.session = (e.run fs out start).2.session
  sink : (d.run fs out start).2.sink = (e.run fs out start).2.sink
  events : Omits Event.IsClassify (d.run fs out start).2.events.toList
    (e.run fs out start).2.events.toList
  heard : Omits Answered.IsMissing (d.heard fs out start) (e.heard fs out start)

section
open Dialogue

theorem Alike.spares {d e : Dialogue α} {start : Run σ τ}
    (h : Alike (Coupling.omitting σ) fs.watch fs.watch out d e start.listening start.listening) :
    Spares fs out d e start := by
  have hd : d.run fs out start = _ := run_heard d start.listening
  have he : e.run fs out start = _ := run_heard e start.listening
  have hevents : Omits Event.IsClassify (d.run fs out start).2.events.toList
      (e.run fs out start).2.events.toList := by
    rw [hd, he]
    exact h.states.events
  constructor
  · rw [hd, he]
    exact h.result
  · apply hevents.filterMap_eq
    rintro _ ⟨path, rfl⟩
    rfl
  · apply hevents.filterMap_eq
    rintro _ ⟨path, rfl⟩
    rfl
  · rw [hd, he]
    exact h.states.session
  · rw [hd, he]
    exact h.states.sink
  · exact hevents
  · exact h.states.files.1

/-- The recursion that the walk amounts to spares questions, to any depth. -/
theorem alike_thorough (hfs : fs.Treelike) (rules : Rules) (out : Sink τ) (depth : Nat)
    (pair : Pair) (start : Run σ τ) :
    Alike (Coupling.omitting σ) fs.watch fs.watch out (Recursive.walk rules depth pair)
      (Recursive.thorough rules depth pair) start.listening start.listening := by
  have hsame : (Coupling.omitting σ).Holds start.listening start.listening :=
    ⟨⟨.nil, rfl⟩, rfl, rfl, .refl _⟩
  exact alike_visit hfs depth nofun nofun hsame

theorem thorough_concludes_iff (hfs : fs.Treelike) (depth : Nat) (pair : Pair) (start : Run σ τ) :
    (Recursive.thorough rules depth pair).concludes fs out start =
      (Recursive.walk rules depth pair).concludes fs out start :=
  calc (Recursive.thorough rules depth pair).concludes fs out start
      = (Recursive.thorough rules depth pair).concludes fs.watch out start.listening :=
        concludes_heard _ start.listening
    _ = (Recursive.walk rules depth pair).concludes fs.watch out start.listening :=
        (alike_thorough hfs rules out depth pair start).concludes.symm
    _ = (Recursive.walk rules depth pair).concludes fs out start :=
        (concludes_heard _ start.listening).symm

/-- The walk spares questions wherever it comes to an end together with the recursion. -/
theorem spares_thorough (hfs : fs.Treelike) {budget depth : Nat} {pair : Pair} {start : Run σ τ}
    (hwalk : (walk rules budget pair).concludes fs out start = true)
    (hrecursive : (Recursive.walk rules depth pair).concludes fs out start = true) :
    Spares fs out (walk rules budget pair) (Recursive.thorough rules depth pair) start := by
  have hwalk' : (walk rules budget pair).concludes fs.watch out start.listening = true := by
    rw [← concludes_heard]
    exact hwalk
  have hrecursive' :
      (Recursive.walk rules depth pair).concludes fs.watch out start.listening = true := by
    rw [← concludes_heard]
    exact hrecursive
  have hrun := walk_run_eq_of_concludes hwalk' hrecursive'
  obtain ⟨hconcludes, hresult, hstates⟩ := alike_thorough hfs rules out depth pair start
  apply Alike.spares
  constructor
  · rw [hwalk', ← hconcludes, hrecursive']
  · rw [hrun]
    exact hresult
  · rw [hrun]
    exact hstates

/-- **The questions that are left out make no difference.** Take a file system in which nothing is
found in what is no directory; otherwise it may answer in any way and fail anywhere. If the walk
that classifies both sides of every pair comes to an end, then with every budget from some one on
the walk does too, and the other way round. Both then end with the same result or the same failure;
they have handed the same commands to the sink, written the same log and made the same notes; and
they got the same answers to the same queries in the same order, but for some paths that only the
one of them classified and that were missing. -/
theorem walk_spares_queries (hfs : fs.Treelike) (rules : Rules) (out : Sink τ) (pair : Pair)
    (start : Run σ τ) :
    (∀ depth, (Recursive.thorough rules depth pair).concludes fs out start = true →
      ∃ budget, ∀ more, budget ≤ more →
        (walk rules more pair).concludes fs out start = true ∧
          Spares fs out (walk rules more pair) (Recursive.thorough rules depth pair) start) ∧
    ∀ budget, (walk rules budget pair).concludes fs out start = true →
      ∃ depth, ∀ more, depth ≤ more →
        (Recursive.thorough rules more pair).concludes fs out start = true ∧
          Spares fs out (walk rules budget pair) (Recursive.thorough rules more pair) start := by
  constructor
  · intro depth hthorough
    rw [thorough_concludes_iff hfs] at hthorough
    obtain ⟨budget, hbudget⟩ := exists_budget fs out hthorough
    refine ⟨budget, fun more hmore => ?_⟩
    have hwalk := walk_concludes_of_le hbudget hmore
    exact ⟨hwalk, spares_thorough hfs hwalk hthorough⟩
  · intro budget hwalk
    refine ⟨budget, fun more hmore => ?_⟩
    have hdeeper : CutOf (Recursive.walk rules budget pair) (Recursive.walk rules more pair) :=
      cutOf_of_le (fun n => visit_cutOf_succ n _ _ _) hmore
    have hrecursive := (hdeeper.run_eq (walk_run_eq hwalk).1).1
    refine ⟨?_, spares_thorough hfs hwalk hrecursive⟩
    rw [thorough_concludes_iff hfs]
    exact hrecursive

/-- A directory is in the way, and the sink refuses to remove it. Only the walk that takes nothing
for granted has asked for `d/a`. -/
theorem walk_spares_queries_vanished :
    let table : Table := ⟨[(.ofString "/", .directory [[0x61]])], []⟩
    let pair : Pair := ⟨.ofString "d", .ofString "/"⟩
    let start : Run Unit (Array Command) := ⟨(), #[], {}, #[]⟩
    let thorough := Recursive.thorough {} 2 pair
    table.fileSystem.Treelike ∧
      thorough.concludes table.fileSystem (.collect (some 0)) start = true ∧
      (thorough.run table.fileSystem (.collect (some 0)) start).2.queries =
        [.classify (.ofString "d"), .classify (.ofString "/"), .list (.ofString "/"),
          .classify (.ofString "d/a"), .classify (.ofString "/a")] ∧
      ∃ budget, ∀ more, budget ≤ more →
        (walk {} more pair).concludes table.fileSystem (.collect (some 0)) start = true ∧
          Spares table.fileSystem (.collect (some 0)) (walk {} more pair) thorough start := by
  intro table pair start thorough
  have htree : table.fileSystem.Treelike := by
    have hlisted : ∀ entry ∈ table.entries, ∀ name ∈ table.names entry.1, name = [0x61] := by
      decide +kernel
    have hnames : ∀ name, table.fileSystem.Names name → name = [0x61] := by
      rintro name ⟨path, names, hgives, hname⟩
      exact table.forall_mem_of_gives hlisted hgives name hname
    intro path files kind after _ _ name hname later _
    obtain rfl := hnames name hname
    -- The root is the only entry, and no name leads there.
    have hother : path.child [0x61] ≠ .ofString "/" := by
      intro heq
      have hbytes := path.bytes_child (show Segment [0x61] by decide)
      rw [heq] at hbytes
      have hmem : (0x61 : UInt8) ∈ (Path.ofString "/").bytes := by
        rw [hbytes]
        simp
      exact absurd hmem (by decide)
    have hentry : table.entry? (path.child [0x61]) = none := by
      simp [Table.entry?, table, hother]
    have hanswer : table.answer (.classify (path.child [0x61])) = .ok .missing := by
      simp only [Table.answer, Table.kind, hentry]
      rfl
    exact Prod.ext hanswer rfl
  have hconcludes : thorough.concludes table.fileSystem (.collect (some 0)) start = true := by
    decide +kernel
  exact ⟨htree, hconcludes, by decide +kernel,
    (walk_spares_queries htree {} (.collect (some 0)) pair start).1 2 hconcludes⟩

end

end TreePlan

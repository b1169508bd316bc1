import TreePlan.Proofs.Alone
import TreePlan.Proofs.Volume

/-!
# Conflicts

The commit between the deletions and the additions is there for one reason: the version control
cannot delete a path and add it in one go. The conflict flag decides on the commit. It is set
where a file and a directory change places, while the two lists come from other actions, of many
pairs, whose destinations may overlap. So it takes an argument that the flag is set exactly when
some path is on both lists (`sync_conflict_iff`).

* A flag leaves its own path on both lists, by the row alone (`exists_path_of_conflict`).
* For the converse, a path that was deleted exists, and a path that was added was missing unless
  there is a conflict. One path cannot be both, if a path has one kind for all walks. Some walks do
  not ask, because they know that below something else than a directory there is nothing; so the
  file system has to know it too (`NothingBelow`). Then a walk is right about every kind
  (`Course.classify_eq`).
-/

namespace TreePlan

variable {answers : (q : Query) → Except Failure q.Answer} {τ : Type} {out : Sink τ}
  {rules : Rules} {budget : Nat}

/-- From `base` down, there is nothing in what is no directory. -/
def NothingBelow (answers : (q : Query) → Except Failure q.Answer) (base : Path) : Prop :=
  ∀ rel name kind, (∀ n ∈ rel, Segment n) → Segment name →
    answers (.classify (base.below rel)) = .ok kind → kind ≠ .directory →
      answers (.classify ((base.below rel).child name)) = .ok .missing

/-- A file system that stands still gives the answers that it is made of. -/
theorem gives_ofAnswers_iff {q : Query} {answer : q.Answer} :
    (FileSystem.ofAnswers answers).Gives q answer ↔ answers q = .ok answer := by
  constructor
  · rintro ⟨_, _, heq⟩
    exact congrArg Prod.fst heq
  · exact fun heq => ⟨(), (), congrArg (·, ()) heq⟩

/-! ## What a walk finds is there -/

section
variable {pair : Pair} {steps : List (List Name × Step)} {ended : Bool} {rel : List Name}
  (h : Course (FileSystem.ofAnswers answers).Gives rules pair false false steps ended)
  (hlist : ∀ path names, (FileSystem.ofAnswers answers).Gives (.list path) names →
    ∀ name ∈ names, Segment name)
  (hbelow : NothingBelow answers pair.destination)
include h hlist hbelow

/-- A walk is right about every destination, whether it has asked or not. -/
theorem Course.classify_eq {source destination : Kind}
    (hvisited : (rel, .visited source destination) ∈ steps) :
    answers (.classify (pair.destination.below rel)) = .ok destination := by
  -- A place is below the one without its last name, and that one has been classified.
  induction rel using List.reverseRecOn generalizing source destination with
  | nil => exact gives_ofAnswers_iff.mp (h.found hvisited).2
  | append_singleton rel name ih =>
      obtain ⟨source', destination', hparent⟩ := h.exists_visited hvisited
      have hfound := (h.found_child hparent hvisited).2
      have hsegments := h.segments hlist hvisited
      rw [Path.below_concat]
      by_cases hdirectory : destination' = .directory
      · -- listed in a directory, so it was looked at
        rw [Found, if_neg (by simp [hdirectory])] at hfound
        exact gives_ofAnswers_iff.mp hfound
      · -- in what is no directory nothing was looked at, and there is nothing
        rw [Found, if_pos (bne_iff_ne.mpr hdirectory)] at hfound
        rw [hfound]
        exact hbelow rel name destination' (fun n hn => hsegments n (List.mem_append_left _ hn))
          (hsegments name (by simp)) (ih hparent) hdirectory

theorem Course.classify_ne_of_queueDelete (htook : (rel, .took .queueDelete) ∈ steps) :
    answers (.classify (pair.destination.below rel)) ≠ .ok .missing := by
  obtain ⟨source, destination, hvisited, hmem, -⟩ := h.exists_visited_of_took htook
  rw [h.classify_eq hlist hbelow hvisited]
  intro heq
  exact ((queueDelete_mem_policy_iff _ _).mp hmem).1 (Except.ok.inj heq)

/-- Where something is put there was nothing before, or something of the other sort. -/
theorem Course.classify_of_queueAdd (htook : (rel, .took .queueAdd) ∈ steps) :
    answers (.classify (pair.destination.below rel)) = .ok .missing ∨
      ∃ source destination, (rel, .visited source destination) ∈ steps ∧
        .flagConflict ∈ policy source destination := by
  obtain ⟨source, destination, hvisited, hmem, -⟩ := h.exists_visited_of_took htook
  by_cases hmissing : destination = .missing
  · rw [h.classify_eq hlist hbelow hvisited, hmissing]
    exact .inl rfl
  · obtain ⟨hsource, hne⟩ := (queueAdd_mem_policy_iff _ _).mp hmem
    have hflag : .flagConflict ∈ policy source destination := by
      cases source <;> cases destination <;> first | contradiction | decide
    exact .inr ⟨source, destination, hvisited, hflag⟩

end

/-! ## One walk -/

section
variable {σ : Type} {fs : FileSystem σ} {pair : Pair} {files : σ} {sink : τ} {own : Run σ τ}

/-- A walk through to the end flags a conflict if it finds one, and only then. -/
theorem conflict_iff_visiting
    (hrun : (walk rules budget pair).run fs out ⟨files, sink, {}, #[]⟩ = (.ok (), own)) :
    own.session.conflict = true ↔ ∃ source destination place,
      .visiting source destination place ∈ own.records ∧
        .flagConflict ∈ policy source destination := by
  obtain ⟨steps, h, hfollows⟩ := exists_course_walk_ok hrun
  rw [hfollows.conflict]
  constructor
  · rintro ⟨rel, htook⟩
    obtain ⟨source, destination, hvisited, hmem, -⟩ := h.exists_visited_of_took htook
    refine ⟨source, destination, pair.below rel, ?_, hmem⟩
    exact (hfollows.visits _ _ _).mpr ⟨rel, hvisited, rfl⟩
  · rintro ⟨source, destination, place, hrecord, hmem⟩
    obtain ⟨rel, hvisited, -⟩ := (hfollows.visits _ _ _).mp hrecord
    exact ⟨rel, h.took_of_ended rfl hvisited hmem nofun⟩

end

section
variable {pair : Pair} {sink : τ} {own : Run Unit τ}
  (hrun : (walk rules budget pair).run (.ofAnswers answers) out ⟨(), sink, {}, #[]⟩ = (.ok (), own))
  (hlist : ∀ path names, (FileSystem.ofAnswers answers).Gives (.list path) names →
    ∀ name ∈ names, Segment name)
  (hbelow : NothingBelow answers pair.destination) {path : Path}
include hrun hlist hbelow

theorem classify_ne_of_deleted (hmem : path ∈ own.session.deletes.toList) :
    answers (.classify path) ≠ .ok .missing := by
  obtain ⟨steps, h, hfollows⟩ := exists_course_walk_ok hrun
  rw [hfollows.deletes] at hmem
  obtain ⟨rel, htook, rfl⟩ := List.mem_map.mp hmem
  exact h.classify_ne_of_queueDelete hlist hbelow (mem_takenAt.mp htook)

theorem classify_of_added (hmem : path ∈ own.session.adds.toList) :
    answers (.classify path) = .ok .missing ∨ own.session.conflict = true := by
  obtain ⟨steps, h, hfollows⟩ := exists_course_walk_ok hrun
  rw [hfollows.adds] at hmem
  obtain ⟨rel, htook, rfl⟩ := List.mem_map.mp hmem
  refine (h.classify_of_queueAdd hlist hbelow (mem_takenAt.mp htook)).imp id ?_
  rintro ⟨source, destination, hvisited, hflag⟩
  refine (conflict_iff_visiting hrun).mpr ⟨source, destination, pair.below rel, ?_, hflag⟩
  exact (hfollows.visits _ _ _).mpr ⟨rel, hvisited, rfl⟩

end

/-! ## All walks -/

section
variable {pairs : List Pair}

theorem Alone.conflict_iff_exists_visiting {σ : Type} {fs : FileSystem σ} {files : σ}
    {runs : List (Run σ (Array Command))} (h : Alone rules budget fs pairs files runs) :
    (∃ own ∈ runs, own.session.conflict = true) ↔ ∃ source destination place,
      (∃ own ∈ runs, .visiting source destination place ∈ own.records) ∧
        .flagConflict ∈ policy source destination := by
  constructor
  · rintro ⟨own, hown, hflag⟩
    obtain ⟨_, _, _, hrun⟩ := h.walks.1 _ hown
    obtain ⟨source, destination, place, hrecord, hmem⟩ := (conflict_iff_visiting hrun).mp hflag
    exact ⟨source, destination, place, ⟨own, hown, hrecord⟩, hmem⟩
  · rintro ⟨source, destination, place, ⟨own, hown, hrecord⟩, hmem⟩
    obtain ⟨_, _, _, hrun⟩ := h.walks.1 _ hown
    exact ⟨own, hown, (conflict_iff_visiting hrun).mpr ⟨source, destination, place, hrecord, hmem⟩⟩

/-- A path that one walk deletes and another one adds has one kind for both. -/
theorem Alone.conflict_iff_path {runs : List (Run Unit (Array Command))}
    (h : Alone rules budget (.ofAnswers answers) pairs () runs)
    (hlist : ∀ path names, (FileSystem.ofAnswers answers).Gives (.list path) names →
      ∀ name ∈ names, Segment name)
    (hbelow : ∀ pair ∈ pairs, NothingBelow answers pair.destination) :
    (∃ own ∈ runs, own.session.conflict = true) ↔
      ∃ path, (∃ own ∈ runs, path ∈ own.session.deletes.toList) ∧
        ∃ own ∈ runs, path ∈ own.session.adds.toList := by
  constructor
  · -- one walk both deletes and adds it
    rintro ⟨own, hown, hflag⟩
    obtain ⟨_, _, _, hrun⟩ := h.walks.1 _ hown
    obtain ⟨path, hadd, hdelete⟩ := exists_path_of_conflict hrun hflag
    exact ⟨path, ⟨own, hown, hdelete⟩, own, hown, hadd⟩
  · -- the deletion and the addition may be those of two walks
    rintro ⟨path, ⟨deleting, hdeleting, hdelete⟩, adding, hadding, hadd⟩
    obtain ⟨_, hpair, _, hfirst⟩ := h.walks.1 _ hdeleting
    obtain ⟨_, hother, _, hsecond⟩ := h.walks.1 _ hadding
    have hexists := classify_ne_of_deleted hfirst hlist (hbelow _ hpair) hdelete
    have hmissing := classify_of_added hsecond hlist (hbelow _ hother) hadd
    exact ⟨adding, hadding, hmissing.resolve_left hexists⟩

end

/-- The commit is one of the closing batches exactly where there is a conflict. -/
theorem exists_commit_iff (rules : Rules) (report : Report) :
    (∃ message paths, .commit message paths ∈ report.closing rules) ↔ report.conflict = true := by
  simp only [Report.closing, List.mem_append]
  constructor
  · rintro ⟨message, paths, (hmem | hmem) | hmem⟩
    · -- a deletion is no commit
      split at hmem <;> simp at hmem
    · split at hmem
      · assumption
      · exact absurd hmem List.not_mem_nil
    · -- nor is an addition
      split at hmem <;> simp at hmem
  · intro hflag
    exact ⟨rules.commitMessage, report.deletes.toList, .inl (.inr (by simp [hflag]))⟩

/-- **The conflict flag means that some path is both deleted and added.** Take a file system that
stands still, whose listed names can stand between separators, and in which nothing is found below
a destination that is no directory; and take any list of pairs, whose destinations may well overlap.
If the synchronisation succeeds, the flag is set exactly if some path is on both lists, and exactly
if somewhere a file was to take the place of a directory or the other way round. So there is a
commit exactly if the version control had to delete and to add one path at once. -/
theorem sync_conflict_iff (answers : (q : Query) → Except Failure q.Answer) (out : Sink τ)
    (rules : Rules) (budget : Nat) (pairs : List Pair) (sink : τ)
    (hlist : ∀ path names, answers (.list path) = .ok names → ∀ name ∈ names, Segment name)
    (hbelow : ∀ pair ∈ pairs, NothingBelow answers pair.destination) (report : Report)
    (finish : Run Unit τ)
    (h : (sync rules budget pairs).run (.ofAnswers answers) out ⟨(), sink, {}, #[]⟩ =
      (.ok report, finish)) :
    (report.conflict = true ↔ ∃ path, path ∈ report.deletes ∧ path ∈ report.adds) ∧
      (report.conflict = true ↔ ∃ source destination place,
        .visiting source destination place ∈ finish.records ∧
          (source = .file ∧ destination = .directory ∨
            source = .directory ∧ destination = .file)) ∧
      ((∃ message paths, .commit message paths ∈ finish.commands) ↔
        ∃ path, path ∈ report.deletes ∧ path ∈ report.adds) := by
  obtain ⟨runs, walked, halone, hruns, hcommands, hof, hrecords, hreport⟩ :=
    exists_alone_of_sync_ok h
  have hconflict : report.conflict = true ↔ ∃ own ∈ runs, own.session.conflict = true := by
    rw [hreport, ← List.any_eq_true]
    exact Bool.eq_iff_iff.mp hruns.conflict
  have hdeletes : ∀ path, path ∈ report.deletes ↔
      ∃ own ∈ runs, path ∈ own.session.deletes.toList := by
    intro path
    rw [hreport, ← Array.mem_toList_iff, ← List.mem_flatMap]
    exact hruns.deletes ▸ Iff.rfl
  have hadds : ∀ path, path ∈ report.adds ↔ ∃ own ∈ runs, path ∈ own.session.adds.toList := by
    intro path
    rw [hreport, ← Array.mem_toList_iff, ← List.mem_flatMap]
    exact hruns.adds ▸ Iff.rfl
  have hpath : report.conflict = true ↔ ∃ path, path ∈ report.deletes ∧ path ∈ report.adds := by
    simp only [hconflict, hdeletes, hadds]
    exact halone.conflict_iff_path
      (fun path names hgives => hlist path names (gives_ofAnswers_iff.mp hgives)) hbelow
  refine ⟨hpath, ?_, ?_⟩
  · -- by way of the visits
    have hvisits : ∀ source destination place,
        .visiting source destination place ∈ finish.records ↔
          ∃ own ∈ runs, .visiting source destination place ∈ own.records := by
      intro source destination place
      rw [hrecords, List.mem_append, or_iff_left (by simp), hruns.visits]
      exact or_iff_right List.not_mem_nil
    simp only [hconflict, hvisits, ← flagConflict_mem_policy_iff]
    exact halone.conflict_iff_exists_visiting
  · -- the walks themselves commit nothing
    rw [← hpath, ← exists_commit_iff rules report]
    refine exists_congr fun message => exists_congr fun paths => ?_
    rw [hcommands, List.mem_append, or_iff_right]
    exact fun hmem => absurd (hof _ hmem) nofun

/-! ## Nodes that are in their places -/

section
variable {nodes : List (Place × Tree.Node)} (h : Tree.Placed nodes)
include h

theorem Tree.Placed.segment_of_list {path : Path} {names : List Name}
    (hlist : Tree.answersOf nodes (.list path) = .ok names) : ∀ name ∈ names, Segment name := by
  intro name hname
  obtain rfl : Tree.namesOf nodes path.place = names := Except.ok.inj hlist
  exact (h.of_child (Tree.mem_namesOf.mp hname)).1.segment

theorem Tree.Placed.nothingBelow (base : Path) : NothingBelow (Tree.answersOf nodes) base := by
  intro rel name kind _ hname hkind hne
  obtain rfl : Tree.Node.kind (Tree.ofNodes nodes (base.below rel).place) = kind :=
    Except.ok.inj hkind
  have hmissing : Tree.Node.kind (Tree.ofNodes nodes ((base.below rel).child name).place) =
      .missing := by
    rw [Path.place_child _ hname, Tree.Node.kind_eq_missing]
    by_contra hchild
    exact hne (Tree.Node.kind_eq_directory.mpr (h.of_child hchild).2)
  exact congrArg Except.ok hmissing

end

/-- A file takes the place of a directory, and a directory that of a file in it: the second
destination is inside the first one. -/
theorem sync_conflict_iff_overlapping :
    let nodes : List (Place × Tree.Node) := [([[0x73]], .file [0x31]), ([[0x74]], .directory),
      ([[0x64]], .directory), ([[0x64], [0x61]], .file [])]
    let answers := Tree.answersOf nodes
    let pairs : List Pair := [⟨.ofString "s", .ofString "d"⟩, ⟨.ofString "t", .ofString "d/a"⟩]
    (∀ path names, answers (.list path) = .ok names → ∀ name ∈ names, Segment name) ∧
      (∀ pair ∈ pairs, NothingBelow answers pair.destination) ∧
      ∃ report finish,
        (sync {} 20 pairs).run (.ofAnswers answers) (.collect none) ⟨(), #[], {}, #[]⟩ =
            (.ok report, finish) ∧
          report.conflict = true ∧
          (report.conflict = true ↔ ∃ path, path ∈ report.deletes ∧ path ∈ report.adds) ∧
          (report.conflict = true ↔ ∃ source destination place,
            .visiting source destination place ∈ finish.records ∧
              (source = .file ∧ destination = .directory ∨
                source = .directory ∧ destination = .file)) ∧
          ((∃ message paths, .commit message paths ∈ finish.commands) ↔
            ∃ path, path ∈ report.deletes ∧ path ∈ report.adds) := by
  intro nodes answers pairs
  have h : Tree.Placed nodes := by decide +kernel
  have hlist : ∀ path names, answers (.list path) = .ok names → ∀ name ∈ names, Segment name :=
    fun _ _ => h.segment_of_list
  have hbelow : ∀ pair ∈ pairs, NothingBelow answers pair.destination :=
    fun pair _ => h.nothingBelow pair.destination
  have hflag : ((sync {} 20 pairs).run (.ofAnswers answers) (.collect none)
      ⟨(), #[], {}, #[]⟩).1.toOption.map Report.conflict = some true := by
    decide +kernel
  rcases hrun : (sync {} 20 pairs).run (.ofAnswers answers) (.collect none) ⟨(), #[], {}, #[]⟩ with
    ⟨failure | report, finish⟩
  · rw [hrun] at hflag
    cases hflag
  · rw [hrun] at hflag
    exact ⟨hlist, hbelow, report, finish, rfl, Option.some.inj hflag,
      sync_conflict_iff answers _ _ _ pairs _ hlist hbelow report finish hrun⟩

end TreePlan

import TreePlan.Proofs.Course
import Mathlib.Data.List.Induction

/-!
# A place in a course

The steps of a course name places all over a tree. At each place where a pair was classified
the course is again that of a visit, and `RowAt` says so: which actions were taken there, and
what the steps further down are the steps of. The rest is read off it.

* `Course.exists_rowAt` finds the row of any place that was visited.
* `Course.took_before` and `Course.took_after`: what is above `recurse` in a row was taken before
  any child was visited, and what is below it after all children were done with.
* `Course.found_child` and `Course.listed_child` tie a place to the one above it.
-/

namespace TreePlan

variable {may : (q : Query) → q.Answer → Prop} {rules : Rules} {pair : Pair}
  {sourceGone destinationGone : Bool} {steps : List (List Name × Step)} {ended : Bool}
  {source destination : Kind} {rel : List Name} {name : Name} {x : Step}

/-! ## The steps of a visit -/

section
variable {reached : List Action} {below : List Branch}

/-- An own step or a step of a child comes from one of the actions. -/
theorem mem_rowSteps : (rel, x) ∈ rowSteps source destination reached below ↔
    (rel = [] ∧ x = .visited source destination) ∨
      ∃ action ∈ reached, (rel, x) ∈ action.steps below := by
  rw [rowSteps, List.mem_cons, List.mem_flatMap, Prod.mk.injEq]

theorem nil_mem_rowSteps : ([], x) ∈ rowSteps source destination reached below ↔
    x = .visited source destination ∨ ∃ action ∈ reached, action ≠ .recurse ∧ x = .took action := by
  rw [mem_rowSteps, and_iff_right rfl]
  apply or_congr_right
  refine exists_congr fun action => and_congr_right fun _ => ?_
  by_cases ha : action = .recurse
  · subst ha
    simp [Action.steps, Branch.located]
  · simp [steps_of_ne ha, ha]

theorem cons_mem_rowSteps : (name :: rel, x) ∈ rowSteps source destination reached below ↔
    .recurse ∈ reached ∧ ∃ branch ∈ below, branch.name = name ∧ (rel, x) ∈ branch.steps := by
  rw [mem_rowSteps]
  constructor
  · rintro (⟨⟨⟩, -⟩ | ⟨action, haction, hmem⟩)
    by_cases ha : action = .recurse
    · -- only `recurse` comes to steps further down
      subst ha
      obtain ⟨branch, hbranch, hlocated⟩ := List.mem_flatMap.mp hmem
      obtain ⟨step, hstep, heq⟩ := List.mem_map.mp hlocated
      cases heq
      exact ⟨haction, branch, hbranch, rfl, hstep⟩
    · -- any other action is a step of the pair itself
      rw [steps_of_ne ha, List.mem_singleton] at hmem
      cases hmem
  · rintro ⟨hrecurse, branch, hbranch, rfl, hmem⟩
    refine .inr ⟨.recurse, hrecurse, List.mem_flatMap.mpr ⟨branch, hbranch, ?_⟩⟩
    exact List.mem_map.mpr ⟨_, hmem, rfl⟩

/-- Only one of the children has the name. -/
theorem cons_mem_rowSteps_of_mem {branch : Branch} (hnames : (below.map Branch.name).Nodup)
    (hrecurse : .recurse ∈ reached) (hbranch : branch ∈ below) :
    (branch.name :: rel, x) ∈ rowSteps source destination reached below ↔
      (rel, x) ∈ branch.steps := by
  rw [cons_mem_rowSteps]
  constructor
  · rintro ⟨-, other, hother, hname, hmem⟩
    obtain rfl := List.inj_on_of_nodup_map hnames hother hbranch hname
    exact hmem
  · exact fun hmem => ⟨hrecurse, branch, hbranch, rfl, hmem⟩

end

/-! ## The row of a place -/

/-- At the place `rel` a pair with the given kinds was found, the actions `reached` of its row were
taken, and the steps further down are those of the branches `below`. -/
structure RowAt (may : (q : Query) → q.Answer → Prop) (rules : Rules) (pair : Pair)
    (steps : List (List Name × Step)) (ended : Bool) (rel : List Name) (source destination : Kind)
    (reached : List Action) (below : List Branch) : Prop extends
    RowReached may rules (pair.below rel) source destination reached below where
  isPart : reached <+: policy source destination
  complete : ended = true →
    reached = policy source destination ∧ ∀ branch ∈ below, branch.ended = true
  place : ∀ more y, (rel ++ more, y) ∈ steps ↔ (more, y) ∈ rowSteps source destination reached below

/-- **Every place has its row** that has steps, of its own or further down. -/
theorem Course.exists_row (h : Course may rules pair sourceGone destinationGone steps ended)
    {more : List Name} (hmem : (rel ++ more, x) ∈ steps) :
    ∃ source destination reached below,
      RowAt may rules pair steps ended rel source destination reached below := by
  -- The names lead from one course to that of a child, which is why the pair moves along.
  induction rel generalizing pair sourceGone destinationGone steps ended with
  | nil =>
      cases h with
      | unseen => exact absurd hmem List.not_mem_nil
      | seen _ _ hreached hnames hlisted hbelow hpast hended =>
          exact ⟨_, _, _, _, ⟨⟨hnames, hlisted, hbelow⟩, hpast⟩, hreached, hended,
            fun _ _ => Iff.rfl⟩
  | cons name rel ih =>
      cases h with
      | unseen => exact absurd hmem List.not_mem_nil
      | seen _ _ _ hnames _ hbelow _ hended =>
          obtain ⟨hrecurse, branch, hbranch, rfl, hinner⟩ := cons_mem_rowSteps.mp hmem
          obtain ⟨source, destination, reached, below, hrow⟩ := ih (hbelow branch hbranch) hinner
          refine ⟨source, destination, reached, below, hrow.toRowReached, hrow.isPart, ?_, ?_⟩
          · exact fun hdone => hrow.complete ((hended hdone).2 branch hbranch)
          · exact fun more y =>
              (cons_mem_rowSteps_of_mem hnames hrecurse hbranch).trans (hrow.place more y)

namespace RowAt

variable {reached : List Action} {below : List Branch}

theorem here (h : RowAt may rules pair steps ended rel source destination reached below) :
    (rel, x) ∈ steps ↔
      x = .visited source destination ∨
        ∃ action ∈ reached, action ≠ .recurse ∧ x = .took action := by
  rw [← nil_mem_rowSteps, ← h.place, List.append_nil]

theorem took_iff (h : RowAt may rules pair steps ended rel source destination reached below)
    {action : Action} (ha : action ≠ .recurse) : (rel, .took action) ∈ steps ↔ action ∈ reached := by
  rw [h.here]
  constructor
  · rintro (⟨⟨⟩⟩ | ⟨_, hmem, _, ⟨⟩⟩)
    exact hmem
  · exact fun hmem => .inr ⟨action, hmem, ha, rfl⟩

theorem beyond (h : RowAt may rules pair steps ended rel source destination reached below)
    {rest : List Name} : (rel ++ name :: rest, x) ∈ steps ↔
      .recurse ∈ reached ∧ ∃ branch ∈ below, branch.name = name ∧ (rest, x) ∈ branch.steps := by
  rw [h.place, cons_mem_rowSteps]

end RowAt

/-- Above a place that has steps, there are visits. -/
theorem Course.exists_visited (h : Course may rules pair sourceGone destinationGone steps ended)
    {more : List Name} (hmem : (rel ++ more, x) ∈ steps) :
    ∃ source destination, (rel, .visited source destination) ∈ steps := by
  obtain ⟨source, destination, reached, below, hrow⟩ := h.exists_row hmem
  exact ⟨source, destination, hrow.here.mpr (.inl rfl)⟩

/-- The row of a place is that of the kinds that were found there. -/
theorem Course.exists_rowAt (h : Course may rules pair sourceGone destinationGone steps ended)
    (hmem : (rel, .visited source destination) ∈ steps) :
    ∃ reached below, RowAt may rules pair steps ended rel source destination reached below := by
  have hsteps : (rel ++ [], .visited source destination) ∈ steps := by rwa [List.append_nil]
  obtain ⟨_, _, reached, below, hrow⟩ := h.exists_row hsteps
  obtain heq | ⟨_, _, _, heq⟩ := hrow.here.mp hmem <;> cases heq
  exact ⟨reached, below, hrow⟩

/-! ## What is known of a place -/

theorem recurse_notMem_of_policy {before after : List Action}
    (h : policy source destination = before ++ .recurse :: after) :
    .recurse ∉ before ∧ .recurse ∉ after := by
  have hnodup := nodup_policy source destination
  rw [h, List.nodup_middle, List.nodup_cons, List.mem_append, not_or] at hnodup
  exact hnodup.1

/-- The first actions of a row go up to `recurse` if one of them is not above it. -/
theorem exists_eq_append_recurse {reached before after : List Action}
    (h : reached <+: before ++ .recurse :: after) {action : Action} (hmem : action ∈ reached)
    (hnot : action ∉ before) : ∃ more, reached = before ++ .recurse :: more := by
  have hwhole : before ++ [.recurse] <+: before ++ .recurse :: after :=
    (List.prefix_append_right_inj before).mpr (List.prefix_append [.recurse] after)
  rcases List.prefix_or_prefix_of_prefix h hwhole with hshort | ⟨more, heq⟩
  · rcases List.prefix_concat_iff.mp hshort with heq | hbefore
    · exact ⟨[], heq⟩
    · exact absurd (hbefore.subset hmem) hnot
  · exact ⟨more, by rw [← heq, List.append_assoc, List.singleton_append]⟩

namespace Course

section
variable (h : Course may rules pair sourceGone destinationGone steps ended)
include h

/-- A pair is classified once. -/
theorem visited_unique (hvisited : (rel, .visited source destination) ∈ steps)
    {source' destination' : Kind} (hagain : (rel, .visited source' destination') ∈ steps) :
    source' = source ∧ destination' = destination := by
  obtain ⟨reached, below, hrow⟩ := h.exists_rowAt hvisited
  obtain heq | ⟨_, _, _, heq⟩ := hrow.here.mp hagain <;> cases heq
  exact ⟨rfl, rfl⟩

/-- What was taken at a place is in the row of the kinds that were found there. -/
theorem exists_visited_of_took {action : Action} (htook : (rel, .took action) ∈ steps) :
    ∃ source destination, (rel, .visited source destination) ∈ steps ∧
      action ∈ policy source destination ∧ action ≠ .recurse := by
  have hsteps : (rel ++ [], .took action) ∈ steps := by rwa [List.append_nil]
  obtain ⟨source, destination, reached, below, hrow⟩ := h.exists_row hsteps
  have hvisited := hrow.here.mpr (.inl rfl)
  obtain heq | ⟨_, hreached, hne, heq⟩ := hrow.here.mp htook <;> cases heq
  exact ⟨source, destination, hvisited, hrow.isPart.subset hreached, hne⟩

theorem mem_policy_of_took {action : Action} (htook : (rel, .took action) ∈ steps)
    (hvisited : (rel, .visited source destination) ∈ steps) :
    action ∈ policy source destination := by
  obtain ⟨source', destination', hvisited', hmem, -⟩ := h.exists_visited_of_took htook
  obtain ⟨rfl, rfl⟩ := h.visited_unique hvisited hvisited'
  exact hmem

theorem found (hvisited : ([], .visited source destination) ∈ steps) :
    Found may sourceGone pair.source source ∧
      Found may destinationGone pair.destination destination := by
  cases h with
  | unseen => exact absurd hvisited List.not_mem_nil
  | seen hsource hdestination =>
      obtain heq | ⟨_, _, _, heq⟩ := nil_mem_rowSteps.mp hvisited <;> cases heq
      exact ⟨hsource, hdestination⟩

/-- A child has a side that is asked for only where its parent is a directory. -/
theorem found_child (hvisited : (rel, .visited source destination) ∈ steps)
    {source' destination' : Kind}
    (hchild : (rel ++ [name], .visited source' destination') ∈ steps) :
    Found may (source != .directory) ((pair.below rel).child name).source source' ∧
      Found may (destination != .directory) ((pair.below rel).child name).destination
        destination' := by
  obtain ⟨reached, below, hrow⟩ := h.exists_rowAt hvisited
  obtain ⟨-, branch, hbranch, rfl, hbelow⟩ := hrow.beyond.mp hchild
  exact (hrow.course branch hbranch).found hbelow

theorem missing_child (hvisited : (rel, .visited source destination) ∈ steps)
    {source' destination' : Kind}
    (hchild : (rel ++ [name], .visited source' destination') ∈ steps) :
    (source ≠ .directory → source' = .missing) ∧
      (destination ≠ .directory → destination' = .missing) := by
  obtain ⟨hs, hd⟩ := h.found_child hvisited hchild
  constructor
  · intro hne
    rwa [Found, if_pos (bne_iff_ne.mpr hne)] at hs
  · intro hne
    rwa [Found, if_pos (bne_iff_ne.mpr hne)] at hd

/-- Once a side is known to be missing, nothing is found there further down. -/
theorem missing_of_gone (hvisited : (rel, .visited source destination) ∈ steps) :
    (sourceGone = true → source = .missing) ∧
      (destinationGone = true → destination = .missing) := by
  induction rel using List.reverseRecOn generalizing source destination with
  | nil =>
      obtain ⟨hs, hd⟩ := h.found hvisited
      constructor
      · rintro rfl
        exact hs
      · rintro rfl
        exact hd
  | append_singleton rel name ih =>
      obtain ⟨source', destination', hparent⟩ := h.exists_visited hvisited
      obtain ⟨hs, hd⟩ := h.missing_child hparent hvisited
      constructor
      · intro hgone
        have hmissing := (ih hparent).1 hgone
        exact hs (hmissing ▸ nofun)
      · intro hgone
        have hmissing := (ih hparent).2 hgone
        exact hd (hmissing ▸ nofun)

theorem listed_child (hvisited : (rel, .visited source destination) ∈ steps) {rest : List Name}
    (hchild : (rel ++ name :: rest, x) ∈ steps) :
    Listed may rules (pair.below rel) source destination name := by
  obtain ⟨reached, below, hrow⟩ := h.exists_rowAt hvisited
  obtain ⟨-, branch, hbranch, rfl, -⟩ := hrow.beyond.mp hchild
  exact hrow.listed branch hbranch

/-- The names on the way to a step are such as there are in listings, and none is passed over. -/
theorem names {P : Name → Prop}
    (hlist : ∀ path names, may (.list path) names → ∀ name ∈ names, P name)
    (hmem : (rel, x) ∈ steps) : ∀ n ∈ rel, P n ∧ n ∉ rules.metadataNames := by
  intro n hn
  obtain ⟨front, rest, rfl⟩ := List.append_of_mem hn
  obtain ⟨source, destination, hvisited⟩ := h.exists_visited hmem
  have hlisted := h.listed_child hvisited hmem
  exact ⟨hlisted.of_names hlist, hlisted.1⟩

theorem segments (hlist : ∀ path names, may (.list path) names → ∀ name ∈ names, Segment name)
    (hmem : (rel, x) ∈ steps) : ∀ n ∈ rel, Segment n := fun n hn => (h.names hlist hmem n hn).1

/-! ### What was taken, and when -/

/-- A visit that has come to its end has taken all its actions. -/
theorem took_of_ended (hended : ended = true)
    (hvisited : (rel, .visited source destination) ∈ steps) {action : Action}
    (hmem : action ∈ policy source destination) (hne : action ≠ .recurse) :
    (rel, .took action) ∈ steps := by
  obtain ⟨reached, below, hrow⟩ := h.exists_rowAt hvisited
  rw [hrow.took_iff hne, (hrow.complete hended).1]
  exact hmem

/-- What stands above `recurse` was taken before any child was visited. -/
theorem took_before (hvisited : (rel, .visited source destination) ∈ steps) {rest : List Name}
    (hchild : (rel ++ name :: rest, x) ∈ steps) {before after : List Action}
    (hrow : policy source destination = before ++ .recurse :: after) :
    ∀ action ∈ before, (rel, .took action) ∈ steps := by
  intro action haction
  obtain ⟨reached, below, hat⟩ := h.exists_rowAt hvisited
  obtain ⟨hrecurse, -⟩ := hat.beyond.mp hchild
  have hnot := recurse_notMem_of_policy hrow
  obtain ⟨more, rfl⟩ := exists_eq_append_recurse (hrow ▸ hat.isPart) hrecurse hnot.1
  have hne : action ≠ .recurse := fun heq => hnot.1 (heq ▸ haction)
  rw [hat.took_iff hne]
  exact List.mem_append_left _ haction

/-- What stands below `recurse` was taken after all children were done with. -/
theorem took_after (hvisited : (rel, .visited source destination) ∈ steps)
    {action : Action} (htook : (rel, .took action) ∈ steps) {before after : List Action}
    (hrow : policy source destination = before ++ .recurse :: after) (hafter : action ∈ after)
    {source' destination' : Kind} {rest : List Name}
    (hchild : (rel ++ name :: rest, .visited source' destination') ∈ steps) {action' : Action}
    (hmem : action' ∈ policy source' destination') (hne : action' ≠ .recurse) :
    (rel ++ name :: rest, .took action') ∈ steps := by
  obtain ⟨reached, below, hat⟩ := h.exists_rowAt hvisited
  obtain ⟨hrecurse, branch, hbranch, rfl, hbelow⟩ := hat.beyond.mp hchild
  have hnot := recurse_notMem_of_policy hrow
  have haction : action ∈ reached :=
    (hat.took_iff fun heq => hnot.2 (heq ▸ hafter)).mp htook
  have hbefore : action ∉ before := by
    have hnodup := nodup_policy source destination
    rw [hrow, List.nodup_append] at hnodup
    exact fun hmem => hnodup.2.2 action hmem action (List.mem_cons_of_mem _ hafter) rfl
  obtain ⟨more, rfl⟩ := exists_eq_append_recurse (hrow ▸ hat.isPart) haction hbefore
  -- Something after `recurse` was reached, so `recurse` itself was taken to its end.
  have hmore : more ≠ [] := by
    rintro rfl
    rcases List.mem_append.mp haction with hmem | hmem
    · exact hbefore hmem
    · exact hnot.2 (List.mem_singleton.mp hmem ▸ hafter)
  have hdone : branch.ended = true := hat.past before more rfl hmore branch hbranch
  refine hat.beyond.mpr ⟨hrecurse, branch, hbranch, rfl, ?_⟩
  exact (hat.course branch hbranch).took_of_ended hdone hbelow hmem hne

end

end Course

/-! ## The names in a table -/

/-- A table lists no other names than those of its entries. -/
theorem Table.forall_mem_of_gives (table : Table) {P : Name → Prop}
    (h : ∀ entry ∈ table.entries, ∀ name ∈ table.names entry.1, P name) {path : Path}
    {names : List Name} (hgives : table.fileSystem.Gives (.list path) names) :
    ∀ name ∈ names, P name := by
  obtain ⟨files, after, hanswer⟩ := hgives
  have hok : table.answer (.list path) = .ok names := congrArg Prod.fst hanswer
  obtain rfl : table.names path = names := by
    simp only [answer] at hok
    rcases hcheck : table.check .list path with failure | ⟨⟩
    · rw [hcheck] at hok
      cases hok
    · rw [hcheck] at hok
      exact Except.ok.inj hok
  intro name hname
  rcases hentry : table.entry? path with _ | entry
  · rw [Table.names, hentry] at hname
    exact absurd hname List.not_mem_nil
  · obtain ⟨before, after, heq, -⟩ := List.lookup_eq_some_iff.mp hentry
    exact h (path, entry) (by simp [heq]) name hname

theorem Table.segment_of_gives (table : Table)
    (h : ∀ entry ∈ table.entries, ∀ name ∈ table.names entry.1, Segment name) (path : Path)
    (names : List Name) (hgives : table.fileSystem.Gives (.list path) names) :
    ∀ name ∈ names, Segment name := table.forall_mem_of_gives h hgives

end TreePlan

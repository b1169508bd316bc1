import TreePlan.Proofs.Course.Place

/-!
# Pending paths

While a walk goes on, the paths for the version control pile up: those to add and those to
delete. The batches at the end name them in the order in which they came, so that order has to
be one in which the version control can do as it is told.

* Additions go down: a directory is added before what is in it, and what an added path is put
  into is added before it or stays as it is.
* Deletions go up: a directory is deleted after what is in it, all of it.

The walk is one traversal, and each order comes from the place of `recurse` in some rows:
`pairwise_takenAt_queueAdd` and `pairwise_takenAt_queueDelete` say so of the places at which a
course took an action, by induction on the course. `walk_pending` says it of the paths, at
whatever moment the walk returns.
-/

namespace TreePlan

variable {may : (q : Query) → q.Answer → Prop} {rules : Rules} {pair : Pair}
  {sourceGone destinationGone : Bool} {steps : List (List Name × Step)} {ended : Bool}
  {source destination : Kind} {action : Action}

/-! ## The order of the places -/

def takenBelow (action : Action) (below : List Branch) : List (List Name) :=
  below.flatMap fun branch => (takenAt action branch.steps).map (branch.name :: ·)

theorem mem_takenBelow {below : List Branch} {rel : List Name} :
    rel ∈ takenBelow action below ↔
      ∃ branch ∈ below, ∃ rest, (rest, .took action) ∈ branch.steps ∧ rel = branch.name :: rest := by
  simp only [takenBelow, List.mem_flatMap, List.mem_map, mem_takenAt, eq_comm]

theorem takenAt_rowSteps (reached : List Action) (below : List Branch) :
    takenAt action (rowSteps source destination reached below) =
      reached.flatMap fun other =>
        if other = .recurse then takenBelow action below else if other = action then [[]] else [] := by
  have hlocated : ∀ branch : Branch, takenAt action branch.located =
      (takenAt action branch.steps).map (branch.name :: ·) := by
    intro branch
    rw [takenAt, takenAt, Branch.located, List.filterMap_map, List.map_filterMap]
    congr 1
    funext step
    by_cases hstep : step.2 = .took action <;> simp [hstep]
  have hother : ∀ other : Action, takenAt action (other.steps below) =
      if other = .recurse then takenBelow action below else if other = action then [[]] else [] := by
    intro other
    by_cases hrecurse : other = .recurse
    · rw [if_pos hrecurse, hrecurse, Action.steps, if_pos rfl, takenAt, List.filterMap_flatMap]
      exact List.flatMap_congr fun branch _ => hlocated branch
    · rw [if_neg hrecurse, steps_of_ne hrecurse]
      by_cases heq : other = action <;> simp [takenAt, heq]
  have hown : takenAt action (rowSteps source destination reached below) =
      takenAt action (reached.flatMap (Action.steps below)) := rfl
  rw [hown, takenAt, List.filterMap_flatMap]
  exact List.flatMap_congr fun other _ => hother other

section
variable {R : List Name → List Name → Prop}

/-- Places below different children are not related in any other way than their names are. -/
theorem pairwise_takenBelow (hcons : ∀ name p q, R p q → R (name :: p) (name :: q))
    (hne : ∀ name other p q, name ≠ other → R (name :: p) (other :: q)) {below : List Branch}
    (hnames : (below.map Branch.name).Nodup)
    (h : ∀ branch ∈ below, (takenAt action branch.steps).Pairwise R) :
    (takenBelow action below).Pairwise R := by
  rw [takenBelow, List.pairwise_flatMap]
  constructor
  · intro branch hbranch
    exact List.pairwise_map.mpr ((h branch hbranch).imp (hcons branch.name _ _))
  · refine (List.pairwise_map.mp hnames).imp ?_
    intro branch other hother p hp q hq
    obtain ⟨p, -, rfl⟩ := List.mem_map.mp hp
    obtain ⟨q, -, rfl⟩ := List.mem_map.mp hq
    exact hne _ _ p q hother

/-- In a row, only the place of the action before or after `recurse` makes a difference. -/
theorem pairwise_row {reached : List Action} (hpart : reached <+: policy source destination)
    {places : List (List Name)} (hplaces : places.Pairwise R)
    (hrow : (policy source destination).Pairwise fun first second =>
      (first = .recurse → second = action → ∀ p ∈ places, R p []) ∧
        (first = action → second = .recurse → ∀ p ∈ places, R [] p)) :
    (reached.flatMap fun other =>
      if other = .recurse then places else if other = action then [[]] else []).Pairwise R := by
  have hnodup : reached.Nodup := (nodup_policy source destination).sublist hpart.sublist
  rw [List.pairwise_flatMap]
  constructor
  · -- places of one action
    intro other _
    by_cases hrecurse : other = .recurse
    · rwa [if_pos hrecurse]
    · rw [if_neg hrecurse]
      by_cases heq : other = action <;> simp [heq]
  · -- places of two actions
    refine ((hrow.sublist hpart.sublist).and hnodup).imp ?_
    rintro first second ⟨⟨hafter, hbefore⟩, hdistinct⟩ p hp q hq
    by_cases hfirst : first = .recurse
    · -- those below first, then perhaps the pair itself
      have hsecond : second ≠ .recurse := fun heq => hdistinct (hfirst.trans heq.symm)
      rw [if_pos hfirst] at hp
      rw [if_neg hsecond] at hq
      by_cases heq : second = action
      · rw [if_pos heq, List.mem_singleton] at hq
        exact hq ▸ hafter hfirst heq p hp
      · rw [if_neg heq] at hq
        exact absurd hq List.not_mem_nil
    · rw [if_neg hfirst] at hp
      -- Perhaps the pair itself first, then those below.
      by_cases heq : first = action
      · rw [if_pos heq, List.mem_singleton] at hp
        by_cases hsecond : second = .recurse
        · rw [if_pos hsecond] at hq
          exact hp ▸ hbefore heq hsecond q hq
        · have hother : second ≠ action := fun h => hdistinct (heq.trans h.symm)
          rw [if_neg hsecond, if_neg hother] at hq
          exact absurd hq List.not_mem_nil
      · rw [if_neg heq] at hp
        exact absurd hp List.not_mem_nil

end

/-- What was taken further down was taken for kinds that can be there. -/
theorem exists_policy_of_mem_takenBelow {below : List Branch}
    (hbelow : ∀ branch ∈ below, Course may rules (pair.child branch.name) (source != .directory)
      (destination != .directory) branch.steps branch.ended)
    {rel : List Name} (hmem : rel ∈ takenBelow action below) :
    rel ≠ [] ∧ ∃ source' destination', action ∈ policy source' destination' ∧
      (source ≠ .directory → source' = .missing) ∧
        (destination ≠ .directory → destination' = .missing) := by
  obtain ⟨branch, hbranch, rest, htook, rfl⟩ := mem_takenBelow.mp hmem
  have hcourse := hbelow branch hbranch
  obtain ⟨source', destination', hvisited, hpolicy, -⟩ := hcourse.exists_visited_of_took htook
  obtain ⟨hsource, hdestination⟩ := hcourse.missing_of_gone hvisited
  exact ⟨List.cons_ne_nil _ _, source', destination', hpolicy,
    fun hne => hsource (bne_iff_ne.mpr hne), fun hne => hdestination (bne_iff_ne.mpr hne)⟩

/-- **The order of the places is a matter of single rows**, for a relation that comes down to the
names where the places part. -/
theorem pairwise_takenAt {R : List Name → List Name → Prop}
    (hcons : ∀ name p q, R p q → R (name :: p) (name :: q))
    (hne : ∀ name other p q, name ≠ other → R (name :: p) (other :: q))
    (hrow : ∀ (pair : Pair) (source destination : Kind) (below : List Branch),
      (∀ branch ∈ below, Course may rules (pair.child branch.name) (source != .directory)
        (destination != .directory) branch.steps branch.ended) →
      (policy source destination).Pairwise fun first second =>
        (first = .recurse → second = action → ∀ p ∈ takenBelow action below, R p []) ∧
          (first = action → second = .recurse → ∀ p ∈ takenBelow action below, R [] p))
    (h : Course may rules pair sourceGone destinationGone steps ended) :
    (takenAt action steps).Pairwise R := by
  induction h with
  | unseen => exact .nil
  | seen _ _ hreached hnames _ hbelow _ _ ih =>
      rw [takenAt_rowSteps]
      exact pairwise_row hreached (pairwise_takenBelow hcons hne hnames ih) (hrow _ _ _ _ hbelow)

/-- An addition comes before those below it. -/
theorem pairwise_takenAt_queueAdd
    (h : Course may rules pair sourceGone destinationGone steps ended) :
    (takenAt .queueAdd steps).Pairwise fun p q => ¬ q <+: p := by
  refine pairwise_takenAt ?_ ?_ ?_ h
  · intro name p q hpq
    rwa [List.cons_prefix_cons, and_iff_right rfl]
  · intro name other p q hother hstart
    exact hother (List.cons_prefix_cons.mp hstart).1.symm
  · intro pair source destination below hbelow
    -- A row that adds after `recurse` is one of a source that is no directory, and below such
    -- a source there is nothing to add.
    have hdirectory : (policy source destination).Pairwise fun first second =>
        first = .recurse → second = .queueAdd → source ≠ .directory := by
      cases source <;> cases destination <;> decide
    refine hdirectory.imp fun hne => ⟨fun hfirst hsecond p hp => ?_, fun _ _ p hp => ?_⟩
    · obtain ⟨-, _, _, hmem, hmissing, -⟩ := exists_policy_of_mem_takenBelow hbelow hp
      exact absurd (hmissing (hne hfirst hsecond)) ((queueAdd_mem_policy_iff _ _).mp hmem).1
    · rw [List.prefix_nil]
      exact (exists_policy_of_mem_takenBelow hbelow hp).1

/-- A deletion comes after those below it. -/
theorem pairwise_takenAt_queueDelete
    (h : Course may rules pair sourceGone destinationGone steps ended) :
    (takenAt .queueDelete steps).Pairwise fun p q => ¬ p <+: q := by
  refine pairwise_takenAt ?_ ?_ ?_ h
  · intro name p q hpq
    rwa [List.cons_prefix_cons, and_iff_right rfl]
  · intro name other p q hother hstart
    exact hother (List.cons_prefix_cons.mp hstart).1
  · intro pair source destination below hbelow
    -- A row that deletes before `recurse` is one of a destination that is no directory, and
    -- below such a destination there is nothing to delete.
    have hdirectory : (policy source destination).Pairwise fun first second =>
        first = .queueDelete → second = .recurse → destination ≠ .directory := by
      cases source <;> cases destination <;> decide
    refine hdirectory.imp fun hne => ⟨fun _ _ p hp => ?_, fun hfirst hsecond p hp => ?_⟩
    · rw [List.prefix_nil]
      exact (exists_policy_of_mem_takenBelow hbelow hp).1
    · obtain ⟨-, _, _, hmem, -, hmissing⟩ := exists_policy_of_mem_takenBelow hbelow hp
      exact absurd (hmissing (hne hfirst hsecond)) ((queueDelete_mem_policy_iff _ _).mp hmem).1

/-! ## The order of the paths -/

/-- Of a sequence in which nothing comes before what it must not precede, an element that may not
come after another comes before it. -/
theorem mem_of_pairwise {α : Type} {R : α → α → Prop} {before after : List α} {a b : α}
    (h : (before ++ a :: after).Pairwise R) (hmem : b ∈ before ++ a :: after) (hne : b ≠ a)
    (hnot : ¬ R a b) : b ∈ before := by
  rw [List.pairwise_append, List.pairwise_cons] at h
  rcases List.mem_append.mp hmem with hbefore | hrest
  · exact hbefore
  · rcases List.mem_cons.mp hrest with heq | hafter
    · exact absurd heq hne
    · exact absurd (h.2.1.1 b hafter) hnot

/-- The paths to add and to delete can be worked off in the order in which they came. The records
say what the walk found where. -/
structure Pending (pair : Pair) (adds deletes : List Path) (records : List LogRecord) : Prop where
  /-- No path is added twice. -/
  nodup_adds : adds.Nodup
  /-- No path is deleted twice. -/
  nodup_deletes : deletes.Nodup
  /-- What is added comes after what is above it. -/
  adds_order : adds.Pairwise fun p q => ¬ p.Under q
  /-- What is deleted comes after what is below it. -/
  deletes_order : deletes.Pairwise fun p q => ¬ q.Under p
  /-- What is added is put into something that was added before, or into a directory on both sides
  that is not deleted. Only the destination of the walk itself may be put into anything. -/
  parent : ∀ before path after, adds = before ++ path :: after → path ≠ pair.destination →
    ∃ parent name, Segment name ∧ path = parent.child name ∧
      (parent ∈ before ∨
        parent ∉ deletes ∧
          ∃ place, .visiting .directory .directory place ∈ records ∧ place.destination = parent)
  /-- All that was found in a deleted directory was deleted before. -/
  children : ∀ before path after, deletes = before ++ path :: after →
    ∀ source place, .visiting source .directory place ∈ records → place.destination = path →
      ∀ name source' destination', Segment name →
        .visiting source' destination' (place.child name) ∈ records →
          destination' ≠ .missing → path.child name ∈ before

section
variable (h : Course may rules pair sourceGone destinationGone steps ended)
include h

/-- A place where something is put has a place above it that was made for it, or that is a
directory anyway. -/
theorem Course.parent_of_queueAdd {rel : List Name} {name : Name}
    (htook : (rel ++ [name], .took .queueAdd) ∈ steps) :
    (rel, .took .queueAdd) ∈ steps ∨
      (rel, .took .queueDelete) ∉ steps ∧ (rel, .visited .directory .directory) ∈ steps := by
  obtain ⟨source', destination', hvisited, hmem, -⟩ := h.exists_visited_of_took htook
  obtain ⟨source, destination, hparent⟩ := h.exists_visited htook
  have hexists := ((queueAdd_mem_policy_iff _ _).mp hmem).1
  -- What is no directory has nothing below it to be added.
  obtain rfl : source = .directory := by
    by_contra hne
    exact hexists ((h.missing_child hparent hvisited).1 hne)
  cases destination with
  | missing =>
      have hrow : policy .directory .missing = [.mkdir, .queueAdd] ++ .recurse :: [] := rfl
      exact .inl (h.took_before hparent htook hrow .queueAdd (by simp))
  | file =>
      have hrow : policy .directory .file =
          [.remove, .queueDelete, .mkdir, .queueAdd] ++ .recurse :: [.flagConflict] := rfl
      exact .inl (h.took_before hparent htook hrow .queueAdd (by simp))
  | directory =>  -- for two directories nothing is queued
      refine .inr ⟨fun hdelete => ?_, hparent⟩
      exact absurd (h.mem_policy_of_took hdelete hparent) (by decide)

/-- What is found in a directory that is deleted is deleted. -/
theorem Course.children_of_queueDelete {rel : List Name} {name : Name}
    (htook : (rel, .took .queueDelete) ∈ steps)
    (hparent : (rel, .visited source .directory) ∈ steps) {source' destination' : Kind}
    (hvisited : (rel ++ [name], .visited source' destination') ∈ steps)
    (hexists : destination' ≠ .missing) : (rel ++ [name], .took .queueDelete) ∈ steps := by
  have hne := ((queueDelete_mem_policy_iff _ _).mp (h.mem_policy_of_took htook hparent)).2
  obtain ⟨after, hrow, hafter⟩ : ∃ after, policy source .directory = [] ++ .recurse :: after ∧
      .queueDelete ∈ after := by
    cases source with
    | missing => exact ⟨[.remove, .queueDelete], rfl, by simp⟩
    | file => exact ⟨[.remove, .queueDelete, .copy, .queueAdd, .flagConflict], rfl, by simp⟩
    | directory => exact absurd rfl hne
  -- What is no directory has no children.
  obtain rfl := (h.missing_child hparent hvisited).1 hne
  refine h.took_after hparent htook hrow hafter hvisited ?_ nofun
  exact (queueDelete_mem_policy_iff _ _).mpr ⟨hexists, hexists.symm⟩

variable (hlist : ∀ path names, may (.list path) names → ∀ name ∈ names, Segment name)
include hlist

/-- Different places of a course have different paths. -/
theorem Course.below_inj {p q : List Name} {x y : Step} (hp : (p, x) ∈ steps)
    (hq : (q, y) ∈ steps) (heq : pair.destination.below p = pair.destination.below q) : p = q :=
  pair.destination.below_inj (h.segments hlist hp) (h.segments hlist hq) heq

theorem Course.isPart_of_under {p q : List Name} {x y : Step} (hp : (p, x) ∈ steps)
    (hq : (q, y) ∈ steps)
    (hunder : (pair.destination.below q).Under (pair.destination.below p)) : p <+: q := by
  obtain ⟨name, rel, rfl⟩ :=
    pair.destination.exists_of_under (h.segments hlist hp) (h.segments hlist hq) hunder
  exact List.prefix_append p _

/-- The paths where a course took an action are as different as the places are. -/
theorem Course.nodup_map_takenAt {R : List Name → List Name → Prop} (hirrefl : ∀ p, ¬ R p p)
    (hpairwise : (takenAt action steps).Pairwise R) :
    ((takenAt action steps).map pair.destination.below).Nodup := by
  refine List.pairwise_map.mpr (hpairwise.imp_of_mem fun {p q} hp hq hpq heq => ?_)
  obtain rfl := h.below_inj hlist (mem_takenAt.mp hp) (mem_takenAt.mp hq) heq
  exact hirrefl p hpq

end

/-- A list of paths below one path, split at one of them, is split at one of the places. -/
theorem exists_of_map_below_eq {base path : Path} {places : List (List Name)}
    {before after : List Path} (h : places.map base.below = before ++ path :: after) :
    ∃ front rel rest, places = front ++ rel :: rest ∧ before = front.map base.below ∧
      path = base.below rel := by
  obtain ⟨front, others, rfl, rfl, hothers⟩ := List.map_eq_append_iff.mp h
  obtain ⟨rel, rest, rfl, rfl, -⟩ := List.map_eq_cons_iff.mp hothers
  exact ⟨front, rel, rest, rfl, rfl, rfl⟩

section
variable (h : Course may rules pair sourceGone destinationGone steps ended)
include h

theorem Course.children_of_deleted {front rest : List (List Name)} {rel : List Name}
    (hplaces : takenAt .queueDelete steps = front ++ rel :: rest)
    (hparent : (rel, .visited source .directory) ∈ steps) {name : Name} {source' destination' : Kind}
    (hvisited : (rel ++ [name], .visited source' destination') ∈ steps)
    (hexists : destination' ≠ .missing) : rel ++ [name] ∈ front := by
  have htook : (rel, .took .queueDelete) ∈ steps := mem_takenAt.mp (by simp [hplaces])
  have hdeleted := h.children_of_queueDelete htook hparent hvisited hexists
  have hmem : rel ++ [name] ∈ front ++ rel :: rest := hplaces ▸ mem_takenAt.mpr hdeleted
  refine mem_of_pairwise (hplaces ▸ pairwise_takenAt_queueDelete h) hmem (by simp) ?_
  exact not_not.mpr (List.prefix_append rel [name])

variable (hlist : ∀ path names, may (.list path) names → ∀ name ∈ names, Segment name)
include hlist

theorem Course.parent_of_added {front rest : List (List Name)} {rel : List Name}
    (hplaces : takenAt .queueAdd steps = front ++ rel :: rest) (hbase : rel ≠ []) :
    ∃ above name, Segment name ∧ rel = above ++ [name] ∧
      (above ∈ front ∨
        pair.destination.below above ∉ (takenAt .queueDelete steps).map pair.destination.below ∧
          (above, .visited .directory .directory) ∈ steps) := by
  have htook : (rel, .took .queueAdd) ∈ steps := mem_takenAt.mp (by simp [hplaces])
  obtain ⟨above, name, rfl⟩ := (List.eq_nil_or_concat' rel).resolve_left hbase
  refine ⟨above, name, h.segments hlist htook name (by simp), rfl, ?_⟩
  rcases h.parent_of_queueAdd htook with hadded | ⟨hdeleted, hvisited⟩
  · have hmem : above ∈ front ++ (above ++ [name]) :: rest := hplaces ▸ mem_takenAt.mpr hadded
    -- A directory never comes behind its child, so it stands in front.
    refine .inl (mem_of_pairwise (hplaces ▸ pairwise_takenAt_queueAdd h) hmem (by simp) ?_)
    exact not_not.mpr (List.prefix_append above [name])
  · refine .inr ⟨fun hmem => hdeleted ?_, hvisited⟩
    obtain ⟨other, hother, heq⟩ := List.mem_map.mp hmem
    rw [mem_takenAt] at hother
    rwa [h.below_inj hlist hother hvisited heq] at hother

/-- What a course leaves pending is in order. -/
theorem Course.pending {records : List LogRecord}
    (hvisits : ∀ source destination place, .visiting source destination place ∈ records ↔
      ∃ rel, (rel, .visited source destination) ∈ steps ∧ place = pair.below rel) :
    Pending pair ((takenAt .queueAdd steps).map pair.destination.below)
      ((takenAt .queueDelete steps).map pair.destination.below) records where
  nodup_adds :=
    h.nodup_map_takenAt hlist (fun _ hp => hp List.prefix_rfl) (pairwise_takenAt_queueAdd h)
  nodup_deletes :=
    h.nodup_map_takenAt hlist (fun _ hp => hp List.prefix_rfl) (pairwise_takenAt_queueDelete h)
  adds_order := by
    refine List.pairwise_map.mpr ((pairwise_takenAt_queueAdd h).imp_of_mem ?_)
    intro p q hp hq hpq hunder
    exact hpq (h.isPart_of_under hlist (mem_takenAt.mp hq) (mem_takenAt.mp hp) hunder)
  deletes_order := by
    refine List.pairwise_map.mpr ((pairwise_takenAt_queueDelete h).imp_of_mem ?_)
    intro p q hp hq hpq hunder
    exact hpq (h.isPart_of_under hlist (mem_takenAt.mp hp) (mem_takenAt.mp hq) hunder)
  parent := by
    intro before path after hsplit hbase
    obtain ⟨front, rel, rest, hplaces, rfl, rfl⟩ := exists_of_map_below_eq hsplit
    have hrel : rel ≠ [] := fun heq => hbase (heq ▸ rfl)
    obtain ⟨above, name, hname, rfl, habove⟩ := h.parent_of_added hlist hplaces hrel
    refine ⟨pair.destination.below above, name, hname, Path.below_concat _ _ _, ?_⟩
    refine habove.imp (List.mem_map_of_mem ·) fun ⟨hdeleted, hvisited⟩ => ?_
    exact ⟨hdeleted, pair.below above, (hvisits _ _ _).mpr ⟨above, hvisited, rfl⟩, rfl⟩
  children := by
    intro before path after hsplit source place hfound hplace name source' destination' hname
      hchild hexists
    obtain ⟨front, rel, rest, hplaces, rfl, rfl⟩ := exists_of_map_below_eq hsplit
    have htook : (rel, .took .queueDelete) ∈ steps := mem_takenAt.mp (by simp [hplaces])
    obtain ⟨other, hparent, rfl⟩ := (hvisits _ _ _).mp hfound
    obtain rfl : other = rel := h.below_inj hlist hparent htook hplace
    obtain ⟨below, hvisited, hbelow⟩ := (hvisits _ _ _).mp hchild
    have hsegments : ∀ n ∈ other ++ [name], Segment n := by
      simpa [or_imp, forall_and] using ⟨h.segments hlist htook, hname⟩
    have hpath : pair.destination.below (other ++ [name]) = pair.destination.below below :=
      (Path.below_concat _ _ _).trans (congrArg Pair.destination hbelow)
    obtain rfl := pair.destination.below_inj hsegments (h.segments hlist hvisited) hpath
    rw [← Path.below_concat]
    exact List.mem_map_of_mem (h.children_of_deleted hplaces hparent hvisited hexists)

end

/-- **Pending paths are in an order in which they can be worked off.** Whatever a file system
answers, as long as the names it lists can stand between separators, and however far the walk
gets: what it leaves pending, if nothing was before, is in order. -/
theorem walk_pending {σ τ : Type} (fs : FileSystem σ) (out : Sink τ) (rules : Rules)
    (budget : Nat) (pair : Pair) (files : σ) (sink : τ)
    (hlist : ∀ path names, fs.Gives (.list path) names → ∀ name ∈ names, Segment name) :
    let finish := ((walk rules budget pair).run fs out ⟨files, sink, {}, #[]⟩).2
    Pending pair finish.session.adds.toList finish.session.deletes.toList finish.records := by
  intro finish
  obtain ⟨steps, ended, h, hfollows, -⟩ := exists_course_walk fs out rules budget pair files sink
  rw [hfollows.adds, hfollows.deletes]
  exact h.pending hlist hfollows.visits

/-- A file takes the place of a directory with a directory in it. -/
theorem walk_pending_file_directory :
    let table : Table := ⟨[(.ofString "s", .file []), (.ofString "d", .directory [[0x61]]),
      (.ofString "d/a", .directory [[0x62]]), (.ofString "d/a/b", .file [])], []⟩
    let pair : Pair := ⟨.ofString "s", .ofString "d"⟩
    let finish := ((walk {} 20 pair).run table.fileSystem (.collect none) ⟨(), #[], {}, #[]⟩).2
    (∀ path names, table.fileSystem.Gives (.list path) names → ∀ name ∈ names, Segment name) ∧
      finish.session.adds.toList = [.ofString "d"] ∧
      finish.session.deletes.toList = [.ofString "d/a/b", .ofString "d/a", .ofString "d"] ∧
      Pending pair finish.session.adds.toList finish.session.deletes.toList finish.records := by
  intro table pair finish
  have hlist : ∀ path names, table.fileSystem.Gives (.list path) names →
      ∀ name ∈ names, Segment name :=
    table.segment_of_gives (by decide +kernel)
  have hadds : finish.session.adds.toList = [.ofString "d"] := by decide +kernel
  have hdeletes : finish.session.deletes.toList =
      [.ofString "d/a/b", .ofString "d/a", .ofString "d"] := by
    decide +kernel
  exact ⟨hlist, hadds, hdeletes, walk_pending _ _ _ _ _ _ _ hlist⟩

end TreePlan

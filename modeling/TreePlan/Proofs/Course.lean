import TreePlan.Proofs.Names
import TreePlan.Proofs.Path.Below
import TreePlan.Proofs.Recursion
import TreePlan.Proofs.Trace
import Mathlib.Data.List.Nodup

/-!
# The course of a visit

Whatever a file system answers, a visit finds the kinds of both sides, takes the actions of
their row in order, and visits every child in the place of `recurse`. It may be broken off
anywhere. `Course` describes what there is to show of a visit at any such moment: which pairs
were visited, what was found there, and which actions were taken, each with the names that lead
to where it was taken.

* `Course` follows the recursion: its one case for a visit that has begun holds a list of
  `Branch`es, the courses of the visits of the children.
* `hasCourses` reads every trace of a visit as a course, so that what is shown of courses by
  induction holds at every moment of every walk (`exists_course_walk`).
-/

namespace TreePlan

inductive Step where
  /-- The pair was classified. -/
  | visited (source destination : Kind)
  /-- An action was taken. -/
  | took (action : Action)
  deriving DecidableEq, Repr

/-- What there is to show of the visit of a child, and whether the visit came to its end. -/
structure Branch where
  name : Name
  steps : List (List Name × Step)
  ended : Bool

def Branch.located (branch : Branch) : List (List Name × Step) :=
  branch.steps.map fun step => (branch.name :: step.1, step.2)

def Action.steps (below : List Branch) (action : Action) : List (List Name × Step) :=
  if action = .recurse then below.flatMap Branch.located else [([], .took action)]

/-- The steps of a visit, given the kinds that were found, the actions that were taken, and the
visits of the children. -/
def rowSteps (source destination : Kind) (reached : List Action) (below : List Branch) :
    List (List Name × Step) :=
  ([], .visited source destination) :: reached.flatMap (Action.steps below)

section
variable (may : (q : Query) → q.Answer → Prop) (rules : Rules)

def Found (gone : Bool) (path : Path) (kind : Kind) : Prop :=
  if gone then kind = .missing else may (.classify path) kind

/-- A name that is not passed over and is listed at one side of a pair. -/
def Listed (pair : Pair) (source destination : Kind) (name : Name) : Prop :=
  name ∉ rules.metadataNames ∧
    ((source = .directory ∧ ∃ names, may (.list pair.source) names ∧ name ∈ names) ∨
      (destination = .directory ∧ ∃ names, may (.list pair.destination) names ∧ name ∈ names))

variable {may rules} in
/-- A name that is listed has what all names in listings have. -/
theorem Listed.of_names {P : Name → Prop} {pair : Pair} {source destination : Kind} {name : Name}
    (hlist : ∀ path names, may (.list path) names → ∀ name ∈ names, P name)
    (h : Listed may rules pair source destination name) : P name := by
  rcases h.2 with ⟨-, names, hmay, hmem⟩ | ⟨-, names, hmay, hmem⟩
  · exact hlist _ names hmay name hmem
  · exact hlist _ names hmay name hmem

/-- `Course may rules pair sourceGone destinationGone steps ended`: there are the given steps to
show of a visit of `pair`, which has come to its end if `ended`. -/
inductive Course : (pair : Pair) → (sourceGone destinationGone : Bool) →
    (steps : List (List Name × Step)) → (ended : Bool) → Prop
  /-- The pair was not classified. -/
  | unseen (pair : Pair) (sourceGone destinationGone : Bool) :
      Course pair sourceGone destinationGone [] false
  /-- The pair was classified, and the actions `reached` of its row were taken, of which the last
  one may be a `recurse` that is not at its end. -/
  | seen {pair : Pair} {sourceGone destinationGone : Bool} {source destination : Kind}
      {reached : List Action} {below : List Branch} {ended : Bool}
      (hsource : Found may sourceGone pair.source source)
      (hdestination : Found may destinationGone pair.destination destination)
      (hreached : reached <+: policy source destination)
      (hnames : (below.map Branch.name).Nodup)
      (hlisted : ∀ branch ∈ below, Listed may rules pair source destination branch.name)
      (hbelow : ∀ branch ∈ below, Course (pair.child branch.name) (source != .directory)
        (destination != .directory) branch.steps branch.ended)
      (hpast : ∀ before after, reached = before ++ .recurse :: after → after ≠ [] →
        ∀ branch ∈ below, branch.ended = true)
      (hended : ended = true →
        reached = policy source destination ∧ ∀ branch ∈ below, branch.ended = true) :
      Course pair sourceGone destinationGone (rowSteps source destination reached below) ended

end

/-! ## The requests of a step -/

/-- The requests that steps are read from: those that log a visit or make a note. -/
def Request.isMark : Request → Bool
  | .log (.visiting ..) | .note _ => true
  | .ask _ | .emit _ | .log _ | .review => false

theorem Request.queued_of_isMark {r : Request} (h : r.isMark = false) :
    r.added? = none ∧ r.deleted? = none := by
  cases r with
  | note => cases h
  | ask | emit | log | review => exact ⟨rfl, rfl⟩

/-- The request that a step is read from, if any. -/
def Pair.request? (pair : Pair) (step : List Name × Step) : Option Request :=
  let place := pair.below step.1
  match step.2 with
  | .visited source destination => some (.log (.visiting source destination place))
  | .took .queueAdd => some (.note (.add place.destination))
  | .took .queueDelete => some (.note (.delete place.destination))
  | .took .flagConflict => some (.note .conflict)
  | .took .remove | .took .copy | .took .copyIfDifferent | .took .mkdir | .took .recurse => none

def Shows (pair : Pair) (trace : List Request) (steps : List (List Name × Step)) : Prop :=
  trace.filter Request.isMark = steps.filterMap pair.request?

namespace Shows

variable {pair : Pair} {xs ys : List Request} {steps more : List (List Name × Step)}

theorem append (hx : Shows pair xs steps) (hy : Shows pair ys more) :
    Shows pair (xs ++ ys) (steps ++ more) := by
  unfold Shows
  rw [List.filter_append, List.filterMap_append, hx, hy]

/-- What is shown of a child is shown of its parent. -/
theorem located {branch : Branch} (h : Shows (pair.child branch.name) xs branch.steps) :
    Shows pair xs branch.located := by
  unfold Shows Branch.located
  rw [h, List.filterMap_map]
  rfl

theorem of_silent (h : ∀ r ∈ xs, r.isMark = false) : Shows pair xs [] := by
  unfold Shows
  rw [List.filterMap_nil, List.filter_eq_nil_iff]
  intro r hr
  rw [h r hr]
  exact Bool.false_ne_true

end Shows

/-! ## The traces of the parts of a visit -/

open Dialogue

section
variable {may : (q : Query) → q.Answer → Prop} {rules : Rules}

/-- No step is read from any request of a dialogue. -/
abbrev Silent {α : Type} (d : Dialogue α) : Prop := Only (fun r => r.isMark = false) d

theorem reaches_requireText {path : Path} {trace : List Request} {rest : Dialogue Unit}
    (h : Reaches may (Walk.requireText path) trace rest) : trace = [] := by
  unfold Walk.requireText at h
  split at h
  · exact (reaches_done h).1
  · exact (reaches_fail h).1

theorem silent_kindAt (gone : Bool) (path : Path) : Silent (Walk.kindAt gone path) :=
  only_kindAt gone rfl

theorem found_of_reaches {gone : Bool} {path : Path} {trace : List Request} {kind : Kind}
    (h : Reaches may (Walk.kindAt gone path) trace (.done kind)) : Found may gone path kind := by
  cases gone with
  | true =>
      obtain ⟨-, hkind⟩ := reaches_done h
      cases hkind
      rfl
  | false => exact (reaches_request_done h).2

theorem listing_of_reaches_entriesAt {kind : Kind} {path : Path} {trace : List Request}
    {names : List Name} (h : Reaches may (Walk.entriesAt kind path) trace (.done names)) :
    ∀ name ∈ names, kind = .directory ∧ ∃ listing, may (.list path) listing ∧ name ∈ listing := by
  unfold Walk.entriesAt at h
  intro name hname
  split at h
  · next hdir => exact ⟨hdir, names, (reaches_request_done h).2, hname⟩
  · obtain ⟨-, hnames⟩ := reaches_done h
    cases hnames
    exact absurd hname List.not_mem_nil

theorem silent_childNames (pair : Pair) (source destination : Kind) :
    Silent (Walk.childNames rules pair source destination) :=
  only_childNames source destination rfl rfl

theorem listed_of_reaches {pair : Pair} {source destination : Kind} {trace : List Request}
    {names : List Name}
    (h : Reaches may (Walk.childNames rules pair source destination) trace (.done names)) :
    names.Nodup ∧ ∀ name ∈ names, Listed may rules pair source destination name := by
  rcases reaches_bind h with ⟨hrest, -⟩ | ⟨inSource, _, _, -, hs, h⟩
  · -- the trace ends within the listing of the source, and gives no names
    exact absurd ⟨names, rfl⟩ hrest
  rcases reaches_bind h with ⟨hrest, -⟩ | ⟨inDestination, _, _, -, hd, h⟩
  · -- nor does one that ends within the listing of the destination
    exact absurd ⟨names, rfl⟩ hrest
  obtain ⟨-, hnames⟩ := reaches_done h
  cases hnames
  refine ⟨nodup_nameSet _, fun name hname => ?_⟩
  obtain ⟨hmem, hvisible⟩ := Walk.mem_visible.mp hname
  refine ⟨hvisible, (List.mem_append.mp hmem).imp ?_ ?_⟩
  · exact listing_of_reaches_entriesAt hs name
  · exact listing_of_reaches_entriesAt hd name

/-- At its end, an action other than `recurse` shows itself, and before that nothing. -/
theorem shows_act {action : Action} (h : action ≠ .recurse)
    {below : Pair → Bool → Bool → Dialogue Unit} {pair : Pair} {source destination : Kind}
    {trace : List Request} {rest : Dialogue Unit}
    (hreaches : Reaches may (Recursive.act rules below pair source destination action) trace rest) :
    (Shows pair trace [] ∧ ¬ rest.IsDone) ∨ Shows pair trace [([], .took action)] := by
  cases action with
  | recurse => exact absurd rfl h
  | remove | copy | mkdir | queueAdd | queueDelete =>
      rcases reaches_request hreaches with ⟨rfl, hrest⟩ | ⟨reply, -, rfl, -⟩
      · -- the request is yet to be granted
        exact .inl ⟨rfl, hrest⟩
      · exact .inr rfl
  | flagConflict =>
      rcases reaches_bind hreaches with ⟨hrest, left, hlog⟩ | ⟨_, xs, ys, rfl, hlog, hnote⟩
      · rcases reaches_request hlog with ⟨rfl, -⟩ | ⟨_, -, rfl, -⟩
        · exact .inl ⟨rfl, hrest⟩
        · exact .inl ⟨rfl, hrest⟩
      · obtain ⟨rfl, -⟩ := reaches_request_done hlog
        rcases reaches_request hnote with ⟨rfl, hrest⟩ | ⟨_, -, rfl, -⟩
        · exact .inl ⟨rfl, hrest⟩
        · exact .inr rfl
  | copyIfDifferent =>
      have hsilent : Silent (Recursive.act rules below pair source destination .copyIfDifferent) := by
        refine Only.bind (.request rfl) fun equal => ?_
        cases equal with
        | true => exact .done trivial
        | false => exact .request rfl
      have hshows : Shows pair trace [] := .of_silent (hsilent.of_reaches hreaches)
      -- Nothing is read from it, so it may be taken to be at its end.
      exact .inr hshows

/-! ## The visits of the children -/

/-- The branches of a course. -/
structure Branches (may : (q : Query) → q.Answer → Prop) (rules : Rules) (pair : Pair)
    (source destination : Kind) (below : List Branch) : Prop where
  names : (below.map Branch.name).Nodup
  listed : ∀ branch ∈ below, Listed may rules pair source destination branch.name
  course : ∀ branch ∈ below, Course may rules (pair.child branch.name) (source != .directory)
    (destination != .directory) branch.steps branch.ended

theorem Branches.nil {pair : Pair} {source destination : Kind} :
    Branches may rules pair source destination [] :=
  ⟨List.nodup_nil, fun _ h => absurd h List.not_mem_nil, fun _ h => absurd h List.not_mem_nil⟩

/-- Every trace of a visit, one level further down, is a course. -/
def HasCourses (may : (q : Query) → q.Answer → Prop) (rules : Rules) (depth : Nat) : Prop :=
  ∀ pair sourceGone destinationGone trace rest,
    Reaches may (Recursive.visit rules depth pair sourceGone destinationGone) trace rest →
      ∃ steps ended, Course may rules pair sourceGone destinationGone steps ended ∧
        Shows pair trace steps ∧ (rest.IsDone → ended = true)

/-- The traces of the visits of all children are branches. -/
theorem exists_branches {depth : Nat} (hdepth : HasCourses may rules depth) {pair : Pair}
    {source destination : Kind} {names : List Name} (hnodup : names.Nodup)
    (hlisted : ∀ name ∈ names, Listed may rules pair source destination name)
    {trace : List Request} {rest : Dialogue Unit}
    (h : Reaches may (forM names fun name => Recursive.visit rules depth (pair.child name)
      (source != .directory) (destination != .directory)) trace rest) :
    ∃ below, Branches may rules pair source destination below ∧
      (below.map Branch.name).Sublist names ∧ Shows pair trace (below.flatMap Branch.located) ∧
        (rest.IsDone → ∀ branch ∈ below, branch.ended = true) := by
  induction names generalizing trace with
  | nil =>
      obtain ⟨rfl, -⟩ := reaches_done h
      exact ⟨[], .nil, .slnil, rfl, fun _ _ h => absurd h List.not_mem_nil⟩
  | cons name names ih =>
      rw [List.forall_mem_cons] at hlisted
      rw [List.nodup_cons] at hnodup
      rw [List.forM_cons] at h
      rcases reaches_bind h with ⟨hrest, left, hfirst⟩ | ⟨_, xs, ys, rfl, hfirst, hothers⟩
      · -- the trace ends within the first child
        obtain ⟨steps, ended, hcourse, hshows, -⟩ := hdepth _ _ _ _ _ hfirst
        refine ⟨[⟨name, steps, ended⟩], ⟨List.nodup_singleton _, ?_, ?_⟩, ?_, ?_, ?_⟩
        · simpa using hlisted.1
        · simpa using hcourse
        · simp
        · simpa using Shows.located hshows
        · exact fun hdone => absurd hdone hrest
      · -- the trace goes on to the other children
        obtain ⟨steps, ended, hcourse, hshows, hended⟩ := hdepth _ _ _ _ _ hfirst
        obtain ⟨below, hbelow, hsub, hshown, hdone⟩ := ih hnodup.2 hlisted.2 hothers
        refine ⟨⟨name, steps, ended⟩ :: below, ⟨?_, ?_, ?_⟩, hsub.cons_cons name, ?_, ?_⟩
        · rw [List.map_cons, List.nodup_cons]
          exact ⟨fun hmem => hnodup.1 (hsub.subset hmem), hbelow.names⟩
        · exact List.forall_mem_cons.mpr ⟨hlisted.1, hbelow.listed⟩
        · exact List.forall_mem_cons.mpr ⟨hcourse, hbelow.course⟩
        · rw [List.flatMap_cons]
          exact (Shows.located hshows).append hshown
        · exact fun hrest =>
            List.forall_mem_cons.mpr ⟨hended ⟨(), rfl⟩, hdone hrest⟩

/-! ## The actions of a row -/

theorem steps_of_ne {action : Action} (h : action ≠ .recurse) (below : List Branch) :
    action.steps below = [([], .took action)] := if_neg h

/-- Without `recurse` the children do not matter. -/
theorem flatMap_steps_of_notMem {reached : List Action} (h : .recurse ∉ reached)
    (below others : List Branch) :
    reached.flatMap (Action.steps below) = reached.flatMap (Action.steps others) := by
  apply List.flatMap_congr
  intro action haction
  have hne : action ≠ .recurse := fun heq => h (heq ▸ haction)
  rw [steps_of_ne hne, steps_of_ne hne]

/-- How far the actions of a row were taken. -/
structure RowReached (may : (q : Query) → q.Answer → Prop) (rules : Rules) (pair : Pair)
    (source destination : Kind) (reached : List Action) (below : List Branch) : Prop extends
    Branches may rules pair source destination below where
  past : ∀ before after, reached = before ++ .recurse :: after → after ≠ [] →
    ∀ branch ∈ below, branch.ended = true

theorem RowReached.nil {pair : Pair} {source destination : Kind} :
    RowReached may rules pair source destination [] [] :=
  ⟨.nil, fun _ _ _ _ _ h => absurd h List.not_mem_nil⟩

section
variable {pair : Pair} {source destination : Kind} {below : List Branch}

/-- A `recurse` that is the last one may be anywhere in the middle. -/
theorem RowReached.recurse (h : Branches may rules pair source destination below) :
    RowReached may rules pair source destination [.recurse] below where
  toBranches := h
  past := by
    intro before after heq hafter
    have hlength := congrArg List.length heq
    have hpos := List.length_pos_iff.mpr hafter
    simp only [List.length_append, List.length_cons, List.length_nil] at hlength
    omega

/-- A `recurse` that is not the last one is at its end. -/
theorem RowReached.cons_recurse (h : Branches may rules pair source destination below)
    (hended : ∀ branch ∈ below, branch.ended = true) (reached : List Action) :
    RowReached may rules pair source destination (.recurse :: reached) below :=
  ⟨h, fun _ _ _ _ => hended⟩

theorem RowReached.cons {action : Action} {reached : List Action} (ha : action ≠ .recurse)
    (h : RowReached may rules pair source destination reached below) :
    RowReached may rules pair source destination (action :: reached) below where
  toBranches := h.toBranches
  past := by
    intro before after heq hafter
    cases before with
    | nil => exact absurd (List.cons.inj heq).1 ha
    | cons first before => exact h.past before after (List.cons.inj heq).2 hafter

end

/-- The actions that were taken make a course of their pair. -/
theorem RowReached.to_course {pair : Pair} {sourceGone destinationGone ended : Bool}
    {source destination : Kind} {reached : List Action} {below : List Branch}
    (h : RowReached may rules pair source destination reached below)
    (hsource : Found may sourceGone pair.source source)
    (hdestination : Found may destinationGone pair.destination destination)
    (hreached : reached <+: policy source destination)
    (hended : ended = true →
      reached = policy source destination ∧ ∀ branch ∈ below, branch.ended = true) :
    Course may rules pair sourceGone destinationGone (rowSteps source destination reached below)
      ended :=
  .seen hsource hdestination hreached h.names h.listed h.course h.past hended

/-- The traces of a `recurse` are the branches of the children. -/
theorem exists_branches_of_recurse {depth : Nat} (hdepth : HasCourses may rules depth)
    {pair : Pair} {source destination : Kind} {trace : List Request} {rest : Dialogue Unit}
    (h : Reaches may (Recursive.act rules (Recursive.visit rules depth) pair source destination
      .recurse) trace rest) :
    ∃ below, Branches may rules pair source destination below ∧
      Shows pair trace (below.flatMap Branch.located) ∧
        (rest.IsDone → ∀ branch ∈ below, branch.ended = true) := by
  rcases reaches_bind h with ⟨hrest, left, hlist⟩ | ⟨names, xs, ys, rfl, hlist, hvisits⟩
  · refine ⟨[], .nil, .of_silent ?_, fun hdone => absurd hdone hrest⟩
    exact (silent_childNames pair source destination).of_reaches hlist
  · obtain ⟨hnodup, hlisted⟩ := listed_of_reaches hlist
    obtain ⟨below, hbelow, -, hshows, hended⟩ := exists_branches hdepth hnodup hlisted hvisits
    have hsilent : Shows pair xs [] :=
      .of_silent ((silent_childNames pair source destination).of_reaches hlist)
    exact ⟨below, hbelow, hsilent.append hshows, hended⟩

theorem exists_reached {depth : Nat} (hdepth : HasCourses may rules depth) {pair : Pair}
    {source destination : Kind} {actions : List Action} (hnodup : actions.Nodup)
    {trace : List Request} {rest : Dialogue Unit}
    (h : Reaches may (forM actions (Recursive.act rules (Recursive.visit rules depth) pair source
      destination)) trace rest) :
    ∃ reached below, RowReached may rules pair source destination reached below ∧
      reached <+: actions ∧ Shows pair trace (reached.flatMap (Action.steps below)) ∧
        (rest.IsDone → reached = actions ∧ ∀ branch ∈ below, branch.ended = true) := by
  induction actions generalizing trace with
  | nil =>
      obtain ⟨rfl, -⟩ := reaches_done h
      exact ⟨[], [], .nil, List.prefix_rfl, rfl, fun _ => ⟨rfl, fun _ h => absurd h List.not_mem_nil⟩⟩
  | cons action actions ih =>
      rw [List.nodup_cons] at hnodup
      rw [List.forM_cons] at h
      -- The trace ends within the first action, or goes through it and on to the others.
      by_cases ha : action = .recurse
      · subst ha
        rcases reaches_bind h with ⟨hrest, left, hact⟩ | ⟨_, xs, ys, rfl, hact, hothers⟩
        · obtain ⟨below, hbelow, hshows, -⟩ := exists_branches_of_recurse hdepth hact
          refine ⟨[.recurse], below, .recurse hbelow, List.prefix_append [.recurse] actions, ?_,
            fun hdone => absurd hdone hrest⟩
          simpa [Action.steps] using hshows
        · obtain ⟨below, hbelow, hshows, hended⟩ := exists_branches_of_recurse hdepth hact
          obtain ⟨reached, others, -, hpart, hshown, hdone⟩ := ih hnodup.2 hothers
          have hall : ∀ branch ∈ below, branch.ended = true := hended ⟨(), rfl⟩
          -- No action is taken twice, so the others show nothing of the children.
          have hnot : .recurse ∉ reached := fun hmem => hnodup.1 (hpart.subset hmem)
          rw [flatMap_steps_of_notMem hnot others below] at hshown
          exact ⟨.recurse :: reached, below, .cons_recurse hbelow hall reached,
            (List.prefix_cons_inj _).mpr hpart, hshows.append hshown,
            fun hrest => ⟨congrArg _ (hdone hrest).1, hall⟩⟩
      · rcases reaches_bind h with ⟨hrest, left, hact⟩ | ⟨_, xs, ys, rfl, hact, hothers⟩
        · rcases shows_act ha hact with ⟨hshows, -⟩ | hshows
          · exact ⟨[], [], .nil, List.nil_prefix, hshows, fun hdone => absurd hdone hrest⟩
          · refine ⟨[action], [], .cons ha .nil, List.prefix_append [action] actions, ?_,
              fun hdone => absurd hdone hrest⟩
            simpa [steps_of_ne ha] using hshows
        · have hshows : Shows pair xs [([], .took action)] :=
            (shows_act ha hact).resolve_left fun hnot => hnot.2 ⟨(), rfl⟩
          obtain ⟨reached, below, hreached, hpart, hshown, hdone⟩ := ih hnodup.2 hothers
          refine ⟨action :: reached, below, .cons ha hreached, (List.prefix_cons_inj _).mpr hpart, ?_,
            fun hrest => ⟨congrArg _ (hdone hrest).1, (hdone hrest).2⟩⟩
          rw [List.flatMap_cons, steps_of_ne ha]
          exact hshows.append hshown

/-! ## The visit and the walk -/

/-- Wherever a visit is broken off, there is a course of it. -/
theorem hasCourses (depth : Nat) : HasCourses may rules depth := by
  induction depth with
  | zero =>
      intro pair sourceGone destinationGone trace rest h
      obtain ⟨rfl, rfl⟩ := reaches_fail h
      exact ⟨[], false, .unseen .., rfl, fun hdone => absurd hdone (not_isDone_fail _)⟩
  | succ depth ih =>
      intro pair sourceGone destinationGone trace rest h
      -- Until the pair is logged there is nothing to show.
      have hunseen : ∀ {xs : List Request}, ¬ rest.IsDone → Shows pair xs [] →
          ∃ steps ended, Course may rules pair sourceGone destinationGone steps ended ∧
            Shows pair xs steps ∧ (rest.IsDone → ended = true) :=
        fun hrest hshows => ⟨[], false, .unseen .., hshows, fun hdone => absurd hdone hrest⟩
      unfold Recursive.visit at h
      rcases reaches_bind h with ⟨hrest, left, htext⟩ | ⟨_, _, _, rfl, htext, hsecond⟩
      · obtain rfl := reaches_requireText htext
        exact hunseen hrest rfl
      obtain rfl := reaches_requireText htext
      rcases reaches_bind hsecond with ⟨hrest, left, htext'⟩ | ⟨_, _, _, rfl, htext', hkinds⟩
      · obtain rfl := reaches_requireText htext'
        exact hunseen hrest rfl
      obtain rfl := reaches_requireText htext'
      rcases reaches_bind hkinds with ⟨hrest, left, hkind⟩ | ⟨source, xs, _, rfl, hkind, hother⟩
      · exact hunseen hrest (.of_silent ((silent_kindAt _ _).of_reaches hkind))
      have hsource := found_of_reaches hkind
      have hxs : Shows pair xs [] := .of_silent ((silent_kindAt _ _).of_reaches hkind)
      rcases reaches_bind hother with
        ⟨hrest, left, hkind'⟩ | ⟨destination, ys, _, rfl, hkind', hlogged⟩
      · exact hunseen hrest (hxs.append (.of_silent ((silent_kindAt _ _).of_reaches hkind')))
      have hdestination := found_of_reaches hkind'
      have hys : Shows pair ys [] := .of_silent ((silent_kindAt _ _).of_reaches hkind')
      have hvisit : Shows pair [.log (.visiting source destination pair)]
          [([], .visited source destination)] := rfl
      -- As long as the visit is not over, nothing is said about its end.
      have hopen : ∀ {P : Prop}, false = true → P := fun hended => absurd hended Bool.false_ne_true
      rcases reaches_bind hlogged with ⟨hrest, left, hlog⟩ | ⟨_, zs, _, rfl, hlog, hrow⟩
      · rcases reaches_request hlog with ⟨rfl, -⟩ | ⟨_, -, rfl, -⟩
        · exact hunseen hrest (hxs.append (hys.append rfl))
        · exact ⟨_, false, RowReached.nil.to_course hsource hdestination List.nil_prefix hopen,
            hxs.append (hys.append hvisit), fun hdone => absurd hdone hrest⟩
      · obtain ⟨rfl, -⟩ := reaches_request_done hlog
        obtain ⟨reached, below, hreached, hpart, hshows, hdone⟩ :=
          exists_reached ih (nodup_policy source destination) hrow
        have hall := hxs.append (hys.append (hvisit.append hshows))
        by_cases hrest : rest.IsDone
        · exact ⟨_, true, hreached.to_course hsource hdestination hpart fun _ => hdone hrest, hall,
            fun _ => rfl⟩
        · exact ⟨_, false, hreached.to_course hsource hdestination hpart hopen, hall,
            fun hdone => absurd hdone hrest⟩

end

/-! ## What a walk leaves behind -/

/-- The places where an action was taken, in order. -/
def takenAt (action : Action) (steps : List (List Name × Step)) : List (List Name) :=
  steps.filterMap fun step => if step.2 = .took action then some step.1 else none

theorem mem_takenAt {action : Action} {steps : List (List Name × Step)} {rel : List Name} :
    rel ∈ takenAt action steps ↔ (rel, .took action) ∈ steps := by
  unfold takenAt
  rw [List.mem_filterMap]
  constructor
  · rintro ⟨⟨place, step⟩, hmem, hsome⟩
    obtain ⟨rfl, hplace⟩ := Option.ite_none_right_eq_some.mp hsome
    cases hplace
    exact hmem
  · exact fun hmem => ⟨_, hmem, if_pos rfl⟩

/-- The session and the visits in the log are all from the steps below a pair. -/
structure Follows {σ τ : Type} (pair : Pair) (steps : List (List Name × Step))
    (finish : Run σ τ) : Prop where
  adds : finish.session.adds.toList = (takenAt .queueAdd steps).map pair.destination.below
  deletes : finish.session.deletes.toList = (takenAt .queueDelete steps).map pair.destination.below
  conflict : finish.session.conflict = true ↔ ∃ rel, (rel, .took .flagConflict) ∈ steps
  visits : ∀ source destination place, .visiting source destination place ∈ finish.records ↔
    ∃ rel, (rel, .visited source destination) ∈ steps ∧ place = pair.below rel

section
variable {pair : Pair} {trace : List Request} {steps : List (List Name × Step)}

/-- What is read from marks alone can be read from the steps. -/
theorem Shows.filterMap_eq {α : Type} (h : Shows pair trace steps) {f : Request → Option α}
    (hf : ∀ r, r.isMark = false → f r = none) :
    trace.filterMap f = steps.filterMap fun step => (pair.request? step).bind f := by
  have hfilter : trace.filterMap f = (trace.filter Request.isMark).filterMap f := by
    rw [List.filterMap_filter]
    congr 1
    funext r
    cases hr : r.isMark with
    | true => rfl
    | false => exact hf r hr
  rw [hfilter, h, List.filterMap_filterMap]

/-- A mark is in the trace if a step is read from it. -/
theorem Shows.mem_iff (h : Shows pair trace steps) {r : Request} (hr : r.isMark = true) :
    r ∈ trace ↔ ∃ step ∈ steps, pair.request? step = some r := by
  rw [← List.mem_filterMap, ← h, List.mem_filter, and_iff_left hr]

/-- The paths that an action queues are the destinations of the places where it was taken. -/
theorem Shows.queued_eq (h : Shows pair trace steps) {action : Action} {f : Request → Option Path}
    (hf : ∀ r, r.isMark = false → f r = none)
    (haction : ∀ rel step, (pair.request? (rel, step)).bind f =
      if step = .took action then some (pair.destination.below rel) else none) :
    trace.filterMap f = (takenAt action steps).map pair.destination.below := by
  rw [h.filterMap_eq hf, takenAt, List.map_filterMap]
  congr 1
  funext ⟨rel, step⟩
  rw [haction]
  by_cases hstep : step = .took action <;> simp [hstep]

theorem Tells.follows {σ τ : Type} {files : σ} {sink : τ} {finish : Run σ τ}
    (htells : Tells trace ⟨files, sink, {}, #[]⟩ finish) (h : Shows pair trace steps) :
    Follows pair steps finish where
  adds := by
    refine (htells.adds.trans (List.nil_append _)).trans
      (h.queued_eq (fun _ hr => (Request.queued_of_isMark hr).1) ?_)
    rintro rel (_ | action)
    · rfl
    · cases action <;> rfl
  deletes := by
    refine (htells.deletes.trans (List.nil_append _)).trans
      (h.queued_eq (fun _ hr => (Request.queued_of_isMark hr).2) ?_)
    rintro rel (_ | action)
    · rfl
    · cases action <;> rfl
  conflict := by
    rw [htells.conflict, h.mem_iff rfl, or_iff_right nofun]
    constructor
    · rintro ⟨⟨rel, _ | action⟩, hmem, hrequest⟩
      · cases hrequest
      · cases action with
        | flagConflict => exact ⟨rel, hmem⟩
        | remove | copy | copyIfDifferent | mkdir | recurse | queueAdd | queueDelete =>
            cases hrequest
    · exact fun ⟨rel, hmem⟩ => ⟨_, hmem, rfl⟩
  visits source destination place := by
    have hrecord : ∀ record, record ∈ trace.filterMap Request.record? ↔ .log record ∈ trace :=
      fun record => mem_filterMap_iff fun r => by cases r <;> simp [Request.record?]
    have hrecords : finish.records = trace.filterMap Request.record? := htells.records
    rw [hrecords, hrecord, h.mem_iff rfl]
    constructor
    · rintro ⟨⟨rel, _ | action⟩, hmem, hrequest⟩
      · cases hrequest
        exact ⟨rel, hmem, rfl⟩
      · cases action <;> cases hrequest
    · rintro ⟨rel, hmem, rfl⟩
      exact ⟨_, hmem, rfl⟩

end

/-- **Every run of a walk has a course**, whether it comes to an end or not. -/
theorem exists_course_walk {σ τ : Type} (fs : FileSystem σ) (out : Sink τ) (rules : Rules)
    (budget : Nat) (pair : Pair) (files : σ) (sink : τ) :
    let outcome := (walk rules budget pair).run fs out ⟨files, sink, {}, #[]⟩
    ∃ steps ended, Course fs.Gives rules pair false false steps ended ∧
      Follows pair steps outcome.2 ∧ (outcome.1.isOk = true → ended = true) := by
  intro outcome
  obtain ⟨trace, rest, hreaches, htells, hdone⟩ :=
    exists_reaches fs out (walk rules budget pair) ⟨files, sink, {}, #[]⟩
  obtain ⟨left, hleft, hrest⟩ := (walk_cutOf budget pair).reaches hreaches
  obtain ⟨steps, ended, hcourse, hshows, hended⟩ := hasCourses budget _ _ _ _ _ hleft
  exact ⟨steps, ended, hcourse, htells.follows hshows, fun hok => hended (hrest (hdone hok))⟩

/-- A walk that succeeds goes through its whole course. -/
theorem exists_course_walk_ok {σ τ : Type} {fs : FileSystem σ} {out : Sink τ} {rules : Rules}
    {budget : Nat} {pair : Pair} {files : σ} {sink : τ} {finish : Run σ τ}
    (hrun : (walk rules budget pair).run fs out ⟨files, sink, {}, #[]⟩ = (.ok (), finish)) :
    ∃ steps, Course fs.Gives rules pair false false steps true ∧ Follows pair steps finish := by
  obtain ⟨steps, ended, hcourse, hfollows, hended⟩ :=
    exists_course_walk fs out rules budget pair files sink
  rw [hrun] at hfollows hended
  obtain rfl : ended = true := hended rfl
  exact ⟨steps, hcourse, hfollows⟩

end TreePlan

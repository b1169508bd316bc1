import TreePlan.Proofs.Conclusion
import TreePlan.Table
import TreePlan.Walk

/-!
# The walk as a plain recursion

The walk works off a list of tasks. What it *means* is simpler: visit a pair, take the
actions of its row in order, and where the row says `recurse`, visit every child before the
next action. `Recursive.visit` is that recursion, over a bound on its depth alone; nothing in
it knows of tasks.

The main statement, `walk_run_eq_recursive`, says that both are one dialogue: a run of either
that is not cut short is the run of the other. It covers the result, every query, every
command, every log record in its place, the notes, and both partners.

* `workOff_cutOf` reads a list of tasks as the recursive calls that are still to be made, so
  a walk with a budget is a cut of the recursion;
* `visitSettles` and `exists_budget` find a budget for a recursion that ends: every task in
  front of the list is a recursive call that ends, and what follows has a budget already.
-/

namespace TreePlan

namespace Recursive

/-- One action of a pair that was classified; `below` is what to do for a child. -/
def act (rules : Rules) (below : Pair → (sourceGone destinationGone : Bool) → Dialogue Unit)
    (pair : Pair) (source destination : Kind) : Action → Dialogue Unit
  | .remove => .emit (.remove pair.destination (destination = .directory))
  | .copy => .emit (.copy pair.source pair.destination)
  | .copyIfDifferent => do
    if !(← .same pair.source pair.destination) then
      .emit (.copy pair.source pair.destination)
  | .mkdir => .emit (.mkdir pair.destination)
  | .queueAdd => .note (.add pair.destination)
  | .queueDelete => .note (.delete pair.destination)
  | .flagConflict => do
    .log (.typeConflict source destination pair.destination)
    .note .conflict
  | .recurse => do
    let names ← Walk.childNames rules pair source destination
    forM names fun name =>
      below (pair.child name) (source != .directory) (destination != .directory)

/-- Visits a pair and everything below it, at most `depth` levels down. -/
def visit (rules : Rules) : (depth : Nat) → Pair → (sourceGone destinationGone : Bool) →
    Dialogue Unit
  | 0, _, _, _ => .fail .exhausted
  | depth + 1, pair, sourceGone, destinationGone => do
    Walk.requireText pair.source
    Walk.requireText pair.destination
    let source ← Walk.kindAt sourceGone pair.source
    let destination ← Walk.kindAt destinationGone pair.destination
    .log (.visiting source destination pair)
    forM (policy source destination) (act rules (visit rules depth) pair source destination)

def walk (rules : Rules) (depth : Nat) (pair : Pair) : Dialogue Unit :=
  visit rules depth pair false false

/-- The recursive calls that a task stands for. -/
def task (rules : Rules) (depth : Nat) : Task → Dialogue Unit
  | .visit pair sourceGone destinationGone => visit rules depth pair sourceGone destinationGone
  | .resume pair source destination actions =>
    forM actions (act rules (visit rules depth) pair source destination)

end Recursive

open Dialogue Recursive

variable {σ τ : Type} {rules : Rules}

/-! ## A list of tasks as a pile of calls -/

/-- Every action but `recurse` is taken at once, and the rest after it. -/
theorem perform_cons {action : Action} (h : action ≠ .recurse)
    (below : Pair → Bool → Bool → Dialogue Unit) (pair : Pair) (source destination : Kind)
    (rest : List Action) :
    Walk.perform rules pair source destination (action :: rest) =
      act rules below pair source destination action >>= fun _ =>
        Walk.perform rules pair source destination rest := by
  cases action with
  | recurse => exact absurd rfl h
  | copyIfDifferent =>
      simp only [Walk.perform, act, bind_assoc]
      congr 1
      funext equal
      cases equal <;> rfl
  | remove | copy | mkdir | queueAdd | queueDelete | flagConflict =>
      simp only [Walk.perform, act, bind_assoc]

/-- Taking actions up to `recurse` and then doing the tasks that come of it is taking all
the actions. -/
theorem perform_bind_task (depth : Nat) (pair : Pair) (source destination : Kind)
    (actions : List Action) :
    (Walk.perform rules pair source destination actions >>= fun first =>
        forM first (task rules depth)) =
      forM actions (act rules (visit rules depth) pair source destination) := by
  induction actions with
  | nil => rfl
  | cons action rest ih =>
      by_cases h : action = .recurse
      · -- the visits of the children, and the rest of the row behind them
        subst h
        rw [List.forM_cons]
        simp only [Walk.perform, act, bind_assoc, pure_bind]
        congr 1
        funext names
        rw [List.forM_append, Walk.visits, List.forM_map, List.forM_cons]
        congr 1
        funext _
        exact bind_pure_unit
      · -- one action, and the rest of the row
        rw [List.forM_cons, perform_cons h (visit rules depth), bind_assoc]
        congr 1
        funext _
        exact ih

/-- Doing a task and then the tasks that come of it is making its recursive calls, one level
further down. -/
theorem step_visit_bind_task (depth : Nat) (pair : Pair) (sourceGone destinationGone : Bool) :
    (Walk.step rules (.visit pair sourceGone destinationGone) >>= fun first =>
        forM first (task rules depth)) =
      visit rules (depth + 1) pair sourceGone destinationGone := by
  simp only [Walk.step, visit, bind_assoc, perform_bind_task]

theorem step_resume_bind_task (depth : Nat) (pair : Pair) (source destination : Kind)
    (actions : List Action) :
    (Walk.step rules (.resume pair source destination actions) >>= fun first =>
        forM first (task rules depth)) =
      task rules depth (.resume pair source destination actions) :=
  perform_bind_task depth pair source destination actions

/-! ## A deeper recursion goes on further -/

theorem act_cutOf {below whole : Pair → Bool → Bool → Dialogue Unit}
    (h : ∀ pair sourceGone destinationGone,
      CutOf (below pair sourceGone destinationGone) (whole pair sourceGone destinationGone))
    (pair : Pair) (source destination : Kind) (action : Action) :
    CutOf (act rules below pair source destination action)
      (act rules whole pair source destination action) := by
  cases action with
  | recurse => exact (CutOf.refl _).bind fun names => CutOf.forM (fun name => h _ _ _) names
  | _ => exact .refl _

theorem visit_cutOf_succ (depth : Nat) : ∀ pair sourceGone destinationGone,
    CutOf (visit rules depth pair sourceGone destinationGone)
      (visit rules (depth + 1) pair sourceGone destinationGone) := by
  induction depth with
  | zero => exact fun _ _ _ => .cut _
  | succ depth ih =>
      intro pair sourceGone destinationGone
      rw [visit, visit]
      refine (CutOf.refl _).bind fun _ => (CutOf.refl _).bind fun _ => ?_
      refine (CutOf.refl _).bind fun source => (CutOf.refl _).bind fun destination => ?_
      refine (CutOf.refl _).bind fun _ => ?_
      exact CutOf.forM (act_cutOf ih pair source destination) _

theorem task_cutOf_succ (depth : Nat) (t : Task) :
    CutOf (task rules depth t) (task rules (depth + 1) t) := by
  cases t with
  | visit pair sourceGone destinationGone =>
      exact visit_cutOf_succ depth pair sourceGone destinationGone
  | resume pair source destination actions =>
      exact CutOf.forM (act_cutOf (visit_cutOf_succ depth) pair source destination) actions

/-! ## From the list to the recursion -/

/-- A walk with a budget is a cut of the recursion: no walk gets deeper than its budget. -/
theorem workOff_cutOf (budget : Nat) (tasks : List Task) :
    CutOf (Walk.workOff rules budget tasks) (forM tasks (task rules budget)) := by
  induction budget generalizing tasks with
  | zero =>
      cases tasks with
      | nil => exact .done ()
      | cons t rest => exact .cut _
  | succ budget ih =>
      cases tasks with
      | nil => exact .done ()
      | cons t rest =>
          -- The tasks that come of `t` are done one level down, as those of a call are.
          have hstep : CutOf (Walk.step rules t >>= fun first => forM first (task rules budget))
              (task rules (budget + 1) t) := by
            cases t with
            | visit pair sourceGone destinationGone =>
                rw [step_visit_bind_task]
                exact .refl _
            | resume pair source destination actions =>
                rw [step_resume_bind_task]
                exact task_cutOf_succ budget _
          have hrest : CutOf (forM rest (task rules budget)) (forM rest (task rules (budget + 1))) :=
            CutOf.forM (task_cutOf_succ budget) rest
          rw [Walk.workOff, List.forM_cons]
          refine .trans ((CutOf.refl _).bind fun first => ih (first ++ rest)) ?_
          simp only [List.forM_append]
          rw [← bind_assoc]
          exact hstep.bind fun _ => hrest

theorem walk_cutOf (budget : Nat) (pair : Pair) :
    CutOf (TreePlan.walk rules budget pair) (Recursive.walk rules budget pair) := by
  have h : CutOf (TreePlan.walk rules budget pair)
      (forM [Task.visit pair false false] (task rules budget)) := workOff_cutOf budget _
  rwa [List.forM_cons, List.forM_nil, bind_pure_unit] at h

/-- With a larger budget a walk goes on further. -/
theorem workOff_cutOf_succ (budget : Nat) (tasks : List Task) :
    CutOf (Walk.workOff rules budget tasks) (Walk.workOff rules (budget + 1) tasks) := by
  induction budget generalizing tasks with
  | zero =>
      cases tasks with
      | nil => exact .done ()
      | cons t rest => exact .cut _
  | succ budget ih =>
      cases tasks with
      | nil => exact .done ()
      | cons t rest => exact (CutOf.refl _).bind fun first => ih (first ++ rest)

/-! ## From the recursion to the list -/

section
variable (rules) (fs : FileSystem σ) (out : Sink τ)

/-- Some budget suffices for a list of tasks. -/
def Settles (tasks : List Task) (start : Run σ τ) : Prop :=
  ∃ budget, (Walk.workOff rules budget tasks).concludes fs out start = true

variable {rules}

theorem settles_cons {t : Task} {rest : List Task} {start : Run σ τ}
    (h : ∃ budget, (Walk.step rules t >>= fun first =>
      Walk.workOff rules budget (first ++ rest)).concludes fs out start = true) :
    Settles rules fs out (t :: rest) start := by
  obtain ⟨budget, h⟩ := h
  exact ⟨budget + 1, h⟩

/-- A visit settles if its recursive call leads to where the rest of the list settles. -/
def VisitSettles (rules : Rules) (depth : Nat) : Prop :=
  ∀ pair sourceGone destinationGone rest start,
    LeadsTo fs out (visit rules depth pair sourceGone destinationGone) start
      (fun _ after => Settles rules fs out rest after) →
    Settles rules fs out (.visit pair sourceGone destinationGone :: rest) start

/-- The visits of all children settle if their calls lead to where the rest settles. -/
theorem settles_visits {depth : Nat} (hvisit : VisitSettles fs out rules depth) (pair : Pair)
    (source destination : Kind) (names : List Name) (rest : List Task) (start : Run σ τ)
    (h : LeadsTo fs out
      (forM names fun name => visit rules depth (pair.child name) (source != .directory)
        (destination != .directory)) start
      fun _ after => Settles rules fs out rest after) :
    Settles rules fs out (Walk.visits pair source destination names ++ rest) start := by
  induction names generalizing start with
  | nil => exact h.2 () start rfl
  | cons name names ih =>
      rw [List.forM_cons, leadsTo_bind] at h
      exact hvisit _ _ _ _ start (h.mono fun _ after => ih after)

/-- Taking actions concludes, with some budget for all that follows, if taking them by
recursion leads to where the rest of the list settles. -/
theorem exists_concludes_perform {depth : Nat} (hvisit : VisitSettles fs out rules depth)
    (pair : Pair) (source destination : Kind) (actions : List Action) (rest : List Task)
    (start : Run σ τ)
    (h : LeadsTo fs out (forM actions (act rules (visit rules depth) pair source destination))
      start fun _ after => Settles rules fs out rest after) :
    ∃ budget, (Walk.perform rules pair source destination actions >>= fun first =>
      Walk.workOff rules budget (first ++ rest)).concludes fs out start = true := by
  induction actions generalizing start with
  | nil => exact h.2 () start rfl
  | cons action actions ih =>
      rw [List.forM_cons] at h
      by_cases ha : action = .recurse
      · subst ha
        simp only [act, bind_assoc, leadsTo_bind] at h
        simp only [Walk.perform, bind_assoc, pure_bind, List.append_assoc]
        refine h.exists_concludes_bind fun names mid hnames => ?_
        apply settles_visits fs out hvisit
        -- What is left of the row waits behind the children as one task.
        exact hnames.mono fun _ after hrest => settles_cons fs out (ih after hrest)
      · -- the row goes on where this action leads
        rw [leadsTo_bind] at h
        simp only [perform_cons ha (visit rules depth), bind_assoc]
        exact h.exists_concludes_bind fun _ mid hrest => ih mid hrest

theorem visitSettles (depth : Nat) : VisitSettles fs out rules depth := by
  induction depth with
  | zero =>
      intro pair sourceGone destinationGone rest start h
      exact absurd h.1 Bool.false_ne_true
  | succ depth ih =>
      intro pair sourceGone destinationGone rest start h
      apply settles_cons
      simp only [visit, leadsTo_bind] at h
      simp only [Walk.step, bind_assoc]
      refine h.exists_concludes_bind fun _ _ h => h.exists_concludes_bind fun _ _ h => ?_
      refine h.exists_concludes_bind fun source _ h => ?_
      refine h.exists_concludes_bind fun destination _ h => ?_
      refine h.exists_concludes_bind fun _ mid h => ?_
      exact exists_concludes_perform fs out ih pair source destination _ rest mid h

/-- If the recursion ends, some budget suffices for the walk. -/
theorem exists_budget {depth : Nat} {pair : Pair} {start : Run σ τ}
    (h : (Recursive.walk rules depth pair).concludes fs out start = true) :
    ∃ budget, (TreePlan.walk rules budget pair).concludes fs out start = true :=
  visitSettles fs out depth pair false false [] start ⟨h, fun _ _ _ => ⟨0, rfl⟩⟩

end

/-! ## Both are one -/

/-- A walk that is not cut short is the walk by recursion. -/
theorem walk_run_eq {budget : Nat} {pair : Pair} {fs : FileSystem σ} {out : Sink τ}
    {start : Run σ τ} (h : (TreePlan.walk rules budget pair).concludes fs out start = true) :
    (Recursive.walk rules budget pair).concludes fs out start = true ∧
      (TreePlan.walk rules budget pair).run fs out start =
        (Recursive.walk rules budget pair).run fs out start := by
  obtain ⟨hc, hrun⟩ := (walk_cutOf budget pair).run_eq h
  exact ⟨hc, hrun.symm⟩

/-- A walk that is not cut short is the walk by recursion, to any depth that is enough. -/
theorem walk_run_eq_of_concludes {budget depth : Nat} {pair : Pair} {fs : FileSystem σ}
    {out : Sink τ} {start : Run σ τ}
    (hw : (TreePlan.walk rules budget pair).concludes fs out start = true)
    (hr : (Recursive.walk rules depth pair).concludes fs out start = true) :
    (TreePlan.walk rules budget pair).run fs out start =
      (Recursive.walk rules depth pair).run fs out start := by
  -- Both are cuts of the recursion that is deep enough for either.
  have hdeep : CutOf (Recursive.walk rules depth pair)
      (Recursive.walk rules (max depth budget) pair) :=
    cutOf_of_le (fun n => visit_cutOf_succ n _ _ _) (Nat.le_max_left _ _)
  have hwide : CutOf (Recursive.walk rules budget pair)
      (Recursive.walk rules (max depth budget) pair) :=
    cutOf_of_le (fun n => visit_cutOf_succ n _ _ _) (Nat.le_max_right _ _)
  calc (TreePlan.walk rules budget pair).run fs out start
      = (Recursive.walk rules budget pair).run fs out start := (walk_run_eq hw).2
    _ = (Recursive.walk rules (max depth budget) pair).run fs out start :=
        (hwide.run_eq (walk_run_eq hw).1).2.symm
    _ = (Recursive.walk rules depth pair).run fs out start := (hdeep.run_eq hr).2

/-- A smaller budget cuts a walk short, and nothing else. -/
theorem walk_cutOf_of_le {budget more : Nat} (pair : Pair) (hmore : budget ≤ more) :
    CutOf (TreePlan.walk rules budget pair) (TreePlan.walk rules more pair) :=
  cutOf_of_le (fun n => workOff_cutOf_succ n _) hmore

/-- A budget that is enough stays enough when it grows. -/
theorem walk_concludes_of_le {budget more : Nat} {pair : Pair} {fs : FileSystem σ} {out : Sink τ}
    {start : Run σ τ} (h : (TreePlan.walk rules budget pair).concludes fs out start = true)
    (hmore : budget ≤ more) : (TreePlan.walk rules more pair).concludes fs out start = true :=
  ((walk_cutOf_of_le pair hmore).run_eq h).1

/-- If the recursion ends, so does the walk with every budget from some one on, and a larger one
makes no difference to it. -/
theorem exists_stable_budget {depth : Nat} {pair : Pair} {fs : FileSystem σ} {out : Sink τ}
    {start : Run σ τ} (h : (Recursive.walk rules depth pair).concludes fs out start = true) :
    ∃ budget, ∀ more, budget ≤ more →
      (TreePlan.walk rules more pair).concludes fs out start = true ∧
        (TreePlan.walk rules more pair).run fs out start =
          (TreePlan.walk rules budget pair).run fs out start := by
  obtain ⟨budget, hb⟩ := exists_budget fs out h
  exact ⟨budget, fun more hmore => (walk_cutOf_of_le pair hmore).run_eq hb⟩

/-- **The list of tasks is the recursion.** For every file system and sink, whatever they
reply and wherever they fail: if the recursion ends, the walk ends with every budget from
some one on, and both runs are equal in result, queries, commands, log records, notes, and in
the state they leave both partners in. -/
theorem walk_run_eq_recursive {depth : Nat} {pair : Pair} {fs : FileSystem σ} {out : Sink τ}
    {start : Run σ τ} (h : (Recursive.walk rules depth pair).concludes fs out start = true) :
    ∃ budget, ∀ more, budget ≤ more →
      (TreePlan.walk rules more pair).concludes fs out start = true ∧
        (TreePlan.walk rules more pair).run fs out start =
          (Recursive.walk rules depth pair).run fs out start := by
  obtain ⟨budget, hb⟩ := exists_budget fs out h
  refine ⟨budget, fun more hmore => ?_⟩
  have hw := walk_concludes_of_le hb hmore
  exact ⟨hw, walk_run_eq_of_concludes hw h⟩

/-- A recursion that a full sink ends, in the middle of the row of a child. -/
theorem walk_run_eq_recursive_full_sink :
    let table : Table := ⟨[(.ofString "s", .directory [[0x61]]), (.ofString "s/a", .file [])], []⟩
    let rules : Rules := ⟨[], ""⟩
    let pair : Pair := ⟨.ofString "s", .ofString "d"⟩
    let start : Run Unit (Array Command) := ⟨(), #[], {}, #[]⟩
    (Recursive.walk rules 2 pair).concludes table.fileSystem (.collect (some 1)) start = true ∧
      ∃ budget, ∀ more, budget ≤ more →
        (TreePlan.walk rules more pair).concludes table.fileSystem (.collect (some 1)) start = true ∧
          (TreePlan.walk rules more pair).run table.fileSystem (.collect (some 1)) start =
            (Recursive.walk rules 2 pair).run table.fileSystem (.collect (some 1)) start := by
  intro table rules pair start
  have h : (Recursive.walk rules 2 pair).concludes table.fileSystem (.collect (some 1)) start =
      true := by
    decide +kernel
  exact ⟨h, walk_run_eq_recursive h⟩

end TreePlan

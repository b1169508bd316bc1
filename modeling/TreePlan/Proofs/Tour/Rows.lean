import Mathlib.Data.List.Perm.Basic
import TreePlan.Proofs.Conflict
import TreePlan.Proofs.Pending
import TreePlan.Proofs.Session
import TreePlan.Proofs.Termination
import TreePlan.Proofs.Tour

/-!
# What a walk does on its tour

Over a file system that stands still and does not fail, the tour says not only where a walk comes
to, but also what comes of it: the rows of its stops. When the actions are taken is another matter,
for the rows are taken apart by `recurse`; so what is said here is up to order.

* `gets_visit`: if a visit comes to its end at all, it has a result, and the commands are those of
  the rows;
* `ends_visit_of_completes`: a visit comes to its end if its tour does;
* `Course.visited_iff_mem_tour`: a course of the walk goes through the same stops, so that the notes
  are those of the rows as well (`Course.takenAt_perm`);
* `exists_run_does` puts it together for a walk.
-/

namespace TreePlan

variable {σ τ α β : Type} {answers : (q : Query) → Except Failure q.Answer} {out : Sink τ}
  {rules : Rules}

/-! ## The commands of a row -/

section
variable (answers : (q : Query) → Except Failure q.Answer)

def Action.commands (place : Pair) (destination : Kind) : Action → List Command
  | .remove => [.remove place.destination (destination = .directory)]
  | .copy => [.copy place.source place.destination]
  | .copyIfDifferent =>
    if answers (.same place.source place.destination) = .ok true then []
    else [.copy place.source place.destination]
  | .mkdir => [.mkdir place.destination]
  | .recurse | .queueAdd | .queueDelete | .flagConflict => []

def Stop.takes (action : Action) (stop : Stop) : Bool :=
  action ∈ policy stop.source stop.destination

def Stop.commands (pair : Pair) (stop : Stop) : List Command :=
  (policy stop.source stop.destination).flatMap
    (Action.commands answers (pair.below stop.rel) stop.destination)

end

/-- Between two states of a run some commands were handed over, in whatever order. -/
def Run.Handed (new : List Command) (start finish : Run σ τ) : Prop :=
  finish.commands.Perm (start.commands ++ new)

namespace Run.Handed

variable {xs ys : List Command} {start mid finish : Run σ τ}

theorem of_eq (h : finish.commands = start.commands) : Handed [] start finish := by
  rw [Handed, h, List.append_nil]

theorem trans (hx : Handed xs start mid) (hy : Handed ys mid finish) :
    Handed (xs ++ ys) start finish := by
  refine List.Perm.trans hy ((hx.append_right ys).trans ?_)
  rw [List.append_assoc]

theorem perm (h : Handed xs start finish) (hperm : xs.Perm ys) : Handed ys start finish :=
  List.Perm.trans h (hperm.append_left _)

end Run.Handed

/-! ## Runs that get a result if they conclude -/

namespace Dialogue

variable {fs : FileSystem σ} {start : Run σ τ} {P : α → Run σ τ → Prop}

/-- If the run concludes it gets a result, with which and with the state it leaves behind `P`
holds. -/
def Gets (fs : FileSystem σ) (out : Sink τ) (d : Dialogue α) (start : Run σ τ)
    (P : α → Run σ τ → Prop) : Prop :=
  d.concludes fs out start = true →
    ∃ value after, d.run fs out start = (.ok value, after) ∧ P value after

theorem gets_done {value : α} (h : P value start) : Gets fs out (.done value) start P :=
  fun _ => ⟨value, start, rfl, h⟩

theorem Gets.bind {d : Dialogue α} {f : α → Dialogue β} {Q : β → Run σ τ → Prop}
    (hd : Gets fs out d start P)
    (hf : ∀ value after, P value after → Gets fs out (f value) after Q) :
    Gets fs out (d >>= f) start Q := by
  intro hc
  rw [concludes_bind] at hc
  rcases hrun : d.run fs out start with ⟨failure | value, after⟩
  · -- `d` would have had a result
    rw [hrun] at hc
    obtain ⟨_, _, hok, -⟩ := hd hc
    cases hok.symm.trans hrun
  · rw [hrun] at hc
    obtain ⟨_, _, hok, hP⟩ := hd (concludes_of_run_ok fs out hrun)
    cases hok.symm.trans hrun
    obtain ⟨result, finish, hrest, hQ⟩ := hf _ _ hP hc
    exact ⟨result, finish, run_bind_ok.mpr ⟨_, _, hok, hrest⟩, hQ⟩

theorem Gets.mono {d : Dialogue α} {Q : α → Run σ τ → Prop} (h : Gets fs out d start P)
    (hPQ : ∀ value after, P value after → Q value after) : Gets fs out d start Q := by
  intro hc
  obtain ⟨value, after, hrun, hP⟩ := h hc
  exact ⟨value, after, hrun, hPQ value after hP⟩

theorem gets_log (record : LogRecord) :
    Gets fs out (log record) start fun _ => Run.Handed [] start :=
  fun _ => ⟨(), _, run_log .., .of_eq (by simp)⟩

theorem gets_note (n : Note) : Gets fs out (note n) start fun _ => Run.Handed [] start :=
  fun _ => ⟨(), _, run_note .., .of_eq rfl⟩

theorem gets_emit (hout : out.AcceptsAll) (command : Command) :
    Gets fs out (emit command) start fun _ => Run.Handed [command] start := by
  intro _
  obtain ⟨next, haccept⟩ := hout command start.sink
  have hrun : (emit command).run fs out start = (.ok (), { start with
      sink := next
      session := start.session.countEmitted
      events := start.events.push (.emitted command) }) := by
    rw [emit, run_request, Run.reply, haccept]
  refine ⟨(), _, hrun, ?_⟩
  simp [Run.Handed, Run.commands]

theorem gets_forM {ι : Type} {f : ι → Dialogue Unit} {new : ι → List Command} {xs : List ι}
    (h : ∀ x ∈ xs, ∀ start, Gets fs out (f x) start fun _ => Run.Handed (new x) start)
    (start : Run σ τ) :
    Gets fs out (forM xs f) start fun _ => Run.Handed (xs.flatMap new) start := by
  induction xs generalizing start with
  | nil => exact gets_done (.of_eq rfl)
  | cons x xs ih =>
      obtain ⟨hfirst, hrest⟩ := List.forall_mem_cons.mp h
      rw [List.forM_cons, List.flatMap_cons]
      refine (hfirst start).bind fun _ mid hx => ?_
      exact (ih hrest mid).mono fun _ _ hxs => hx.trans hxs

end Dialogue

open Dialogue

/-! ## The names on a tour -/

section
variable {P : Name → Prop}
  (hlist : ∀ path names, answers (.list path) = .ok names → ∀ name ∈ names, P name)
include hlist

theorem forall_mem_childrenFound {pair : Pair} {source destination : Kind} :
    ∀ name ∈ childrenFound answers rules pair source destination, P name := by
  intro name hname
  have hfound : ∀ {kind : Kind} {path : Path}, name ∈ namesFound answers kind path → P name := by
    intro kind path hmem
    unfold namesFound at hmem
    split at hmem
    · rcases hnames : answers (.list path) with _ | names
      · -- a listing that fails has no names
        rw [hnames] at hmem
        exact absurd hmem List.not_mem_nil
      · rw [hnames] at hmem
        exact hlist path names hnames name hmem
    · exact absurd hmem List.not_mem_nil
  exact (List.mem_append.mp (Walk.mem_visible.mp hname).1).elim hfound hfound

theorem forall_mem_rel_of_mem_tour {depth : Nat} {pair : Pair} {sourceGone destinationGone : Bool}
    {stop : Stop} (h : stop ∈ tour answers rules depth pair sourceGone destinationGone) :
    ∀ name ∈ stop.rel, P name := by
  induction depth generalizing pair sourceGone destinationGone stop with
  | zero => exact absurd h List.not_mem_nil
  | succ depth ih =>
      rcases mem_tour_succ.mp h with rfl | ⟨name, hname, inner, hinner, rfl⟩
      · exact List.forall_mem_nil _
      · exact List.forall_mem_cons.mpr ⟨forall_mem_childrenFound hlist name hname, ih hinner⟩

end

/-! ## Where nothing fails -/

section
variable (hall : ∀ query, ∃ answer, answers query = .ok answer) {start : Run Unit τ}
include hall

theorem gets_ask (query : Query) :
    Gets (.ofAnswers answers) out (request (.ask query)) start fun answer after =>
      answers query = .ok answer ∧ Run.Handed [] start after := by
  intro _
  obtain ⟨answer, hanswer⟩ := hall query
  rw [run_request]
  refine ⟨answer, _, Prod.ext hanswer rfl, hanswer, .of_eq ?_⟩
  simp [Run.reply, Run.commands]

theorem gets_kindAt (gone : Bool) (path : Path) :
    Gets (.ofAnswers answers) out (Walk.kindAt gone path) start fun kind after =>
      kind = kindFound answers gone path ∧ Run.Handed [] start after := by
  cases gone with
  | true => exact gets_done ⟨rfl, .of_eq rfl⟩
  | false =>
      refine (gets_ask hall (.classify path)).mono fun kind after ⟨hanswer, hafter⟩ => ⟨?_, hafter⟩
      rw [kindFound, if_neg Bool.false_ne_true, hanswer]
      rfl

theorem gets_entriesAt (kind : Kind) (path : Path) :
    Gets (.ofAnswers answers) out (Walk.entriesAt kind path) start fun names after =>
      names = namesFound answers kind path ∧ Run.Handed [] start after := by
  unfold Walk.entriesAt namesFound
  split
  · refine (gets_ask hall (.list path)).mono fun names after ⟨hanswer, hafter⟩ => ⟨?_, hafter⟩
    rw [hanswer]
    rfl
  · exact gets_done ⟨rfl, .of_eq rfl⟩

theorem gets_childNames (pair : Pair) (source destination : Kind) :
    Gets (.ofAnswers answers) out (Walk.childNames rules pair source destination) start
      fun names after => names = childrenFound answers rules pair source destination ∧
        Run.Handed [] start after := by
  refine (gets_entriesAt hall source pair.source).bind ?_
  rintro _ mid ⟨rfl, hmid⟩
  refine (gets_entriesAt hall destination pair.destination).bind ?_
  rintro _ after ⟨rfl, hafter⟩
  exact gets_done ⟨rfl, hmid.trans hafter⟩

section
variable (hout : out.AcceptsAll) {below : Pair → Bool → Bool → Dialogue Unit}
  {pair : Pair} {source destination : Kind} {new : Name → List Command}
  (hbelow : ∀ name ∈ childrenFound answers rules pair source destination, ∀ start,
    Gets (.ofAnswers answers) out
      (below (pair.child name) (source != .directory) (destination != .directory)) start
      fun _ => Run.Handed (new name) start)
include hout hbelow

theorem gets_act (action : Action) (start : Run Unit τ) :
    Gets (.ofAnswers answers) out (Recursive.act rules below pair source destination action) start
      fun _ => Run.Handed (action.commands answers pair destination ++ if action = .recurse then
        (childrenFound answers rules pair source destination).flatMap new else []) start := by
  cases action with
  | remove | copy | mkdir => exact gets_emit hout _
  | queueAdd | queueDelete => exact gets_note _
  | flagConflict => exact (gets_log _).bind fun _ _ hlog => (gets_note _).mono fun _ _ => hlog.trans
  | copyIfDifferent =>
      refine (gets_ask hall (.same pair.source pair.destination)).bind ?_
      rintro equal mid ⟨hanswer, hmid⟩
      cases equal with
      | true =>
          rw [Action.commands, if_pos hanswer]
          exact gets_done hmid
      | false =>
          have hne : answers (.same pair.source pair.destination) ≠ .ok true := by
            rw [hanswer]
            exact nofun
          rw [Action.commands, if_neg hne]
          exact (gets_emit hout _).mono fun _ _ => hmid.trans
  | recurse =>
      refine (gets_childNames hall pair source destination).bind ?_
      rintro _ mid ⟨rfl, hmid⟩
      exact (gets_forM hbelow mid).mono fun _ _ => hmid.trans

/-- Up to order, a row hands over its own commands and then those of the children. -/
theorem gets_row (start : Run Unit τ) :
    Gets (.ofAnswers answers) out
      (forM (policy source destination) (Recursive.act rules below pair source destination)) start
      fun _ => Run.Handed (Stop.commands answers pair ⟨[], source, destination⟩ ++
        (childrenFound answers rules pair source destination).flatMap new) start := by
  refine (gets_forM (fun action _ => gets_act hall hout hbelow action) start).mono ?_
  intro _ after hafter
  refine hafter.perm ((List.flatMap_append_perm _ _ _).symm.trans ?_)
  rw [flatMap_policy]
  · rfl
  · intro hs hd
    rw [childrenFound_of_ne hs hd, List.flatMap_nil]

end

/-- **A visit hands over the commands of the rows of its stops**, if it comes to its end. -/
theorem gets_visit (hout : out.AcceptsAll)
    (hlist : ∀ path names, answers (.list path) = .ok names → ∀ name ∈ names, EntryName name)
    (depth : Nat) {pair : Pair} (htext : pair.IsText) (sourceGone destinationGone : Bool)
    (start : Run Unit τ) :
    Gets (.ofAnswers answers) out (Recursive.visit rules depth pair sourceGone destinationGone)
      start fun _ => Run.Handed ((tour answers rules depth pair sourceGone
        destinationGone).flatMap (Stop.commands answers pair)) start := by
  induction depth generalizing pair sourceGone destinationGone start with
  | zero => exact fun hc => absurd hc Bool.false_ne_true
  | succ depth ih =>
      have hpass : ∀ {path : Path}, path.isText = true → Walk.requireText path = .done () :=
        fun h => if_pos h
      rw [Recursive.visit, hpass htext.source, hpass htext.destination, done_bind, done_bind, tour,
        List.flatMap_cons, List.flatMap_assoc]
      refine (gets_kindAt hall sourceGone pair.source).bind ?_
      rintro _ one ⟨rfl, hone⟩
      refine (gets_kindAt hall destinationGone pair.destination).bind ?_
      rintro _ two ⟨rfl, htwo⟩
      refine (gets_log _).bind fun _ three hthree => ?_
      refine (gets_row hall hout (fun name hname mid => ?_) three).mono fun _ _ hrow =>
        ((hone.trans htwo).trans hthree).trans hrow
      have hname := forall_mem_childrenFound hlist name hname
      rw [List.flatMap_map]
      have hchild : (pair.child name).IsText :=
        ⟨Path.isText_child htext.source hname, Path.isText_child htext.destination hname⟩
      exact ih hchild _ _ mid

end

/-! ## Visits that come to their end -/

theorem kindFound_of_found {gone : Bool} {path : Path} {kind : Kind}
    (h : Found (FileSystem.ofAnswers answers).Gives gone path kind) :
    kind = kindFound answers gone path := by
  cases gone with
  | true => exact h
  | false =>
      rw [kindFound, if_neg Bool.false_ne_true, gives_ofAnswers_iff.mp h]
      rfl

theorem mem_childrenFound_of_listed {pair : Pair} {source destination : Kind} {name : Name}
    (h : Listed (FileSystem.ofAnswers answers).Gives rules pair source destination name) :
    name ∈ childrenFound answers rules pair source destination := by
  obtain ⟨hvisible, hlisted⟩ := h
  refine Walk.mem_visible.mpr ⟨List.mem_append.mpr ?_, hvisible⟩
  have hfound : ∀ {kind : Kind} {path : Path}, (kind = .directory ∧ ∃ names,
      (FileSystem.ofAnswers answers).Gives (.list path) names ∧ name ∈ names) →
        name ∈ namesFound answers kind path := by
    rintro kind path ⟨hdirectory, names, hgives, hname⟩
    rw [namesFound, if_pos hdirectory, gives_ofAnswers_iff.mp hgives]
    exact hname
  exact hlisted.imp hfound hfound

/-- **A visit comes to its end if its tour does**, whatever fails in it. -/
theorem ends_visit_of_completes {depth : Nat} {pair : Pair} {sourceGone destinationGone : Bool}
    (h : Completes answers rules depth pair sourceGone destinationGone) :
    Ends (.ofAnswers answers) out
      (Recursive.visit rules depth pair sourceGone destinationGone) := by
  induction depth generalizing pair sourceGone destinationGone with
  | zero => exact h.elim
  | succ depth ih =>
      obtain ⟨-, -, hchildren⟩ := h
      refine ends_visit_succ fun source destination hsource hdestination name hlisted => ?_
      obtain rfl := kindFound_of_found hsource
      obtain rfl := kindFound_of_found hdestination
      exact ih (hchildren name (mem_childrenFound_of_listed hlisted))

/-- With every budget from some one on a walk comes to its end if its tour does. -/
theorem exists_budget_of_completes {depth : Nat} {pair : Pair}
    (h : Completes answers rules depth pair false false) (out : Sink τ) (start : Run Unit τ) :
    ∃ budget, ∀ more, budget ≤ more →
      (walk rules more pair).concludes (.ofAnswers answers) out start = true ∧
        (walk rules more pair).run (.ofAnswers answers) out start =
          (walk rules budget pair).run (.ofAnswers answers) out start :=
  exists_stable_budget (ends_visit_of_completes h start)

/-! ## The stops of a course -/

/-- No place is visited twice. -/
theorem nodup_places (answers : (q : Query) → Except Failure q.Answer) (rules : Rules)
    (depth : Nat) (pair : Pair) :
    ((tour answers rules depth pair false false).map Stop.rel).Nodup := by
  refine (pairwise_tour answers rules depth pair false false).imp ?_
  rintro rel _ hlt rfl
  exact List.lt_irrefl rel hlt

section
variable {pair : Pair} {depth : Nat} {sink : τ} {steps : List (List Name × Step)}
  {finish : Run σ τ}
  (hcourse : Course (FileSystem.ofAnswers answers).Gives rules pair false false steps true)
  (hlist : ∀ path names, (FileSystem.ofAnswers answers).Gives (.list path) names →
    ∀ name ∈ names, Segment name)
  (hfollows : Follows pair steps finish)
  (hvisits : finish.visits =
    (tour answers rules depth pair false false).map (Stop.record pair))
include hcourse hlist hfollows hvisits

/-- A course through all that a tour visits visits nothing else. -/
theorem Course.visited_iff_mem_tour {stop : Stop} :
    (stop.rel, .visited stop.source stop.destination) ∈ steps ↔
      stop ∈ tour answers rules depth pair false false := by
  have hsegments : ∀ stop ∈ tour answers rules depth pair false false,
      ∀ name ∈ stop.rel, Segment name := fun _ =>
    forall_mem_rel_of_mem_tour fun path names h => hlist path names (gives_ofAnswers_iff.mpr h)
  have hrecord : ∀ stop : Stop, stop.record pair ∈ finish.records ↔
      ∃ other ∈ tour answers rules depth pair false false,
        other.record pair = stop.record pair := by
    intro stop
    rw [← List.mem_map, ← hvisits, Run.visits, List.mem_filter]
    exact (and_iff_left rfl).symm
  constructor
  · intro hvisited
    obtain ⟨⟨rel, source, destination⟩, hother, heq⟩ :=
      (hrecord stop).mp ((hfollows.visits _ _ _).mpr ⟨_, hvisited, rfl⟩)
    obtain ⟨rfl, rfl, hplace⟩ := LogRecord.visiting.inj heq
    obtain rfl : rel = stop.rel := pair.destination.below_inj
      (hsegments _ hother) (hcourse.segments hlist hvisited) (congrArg Pair.destination hplace)
    exact hother
  · intro hstop
    obtain ⟨rel, hvisited, hplace⟩ :=
      (hfollows.visits _ _ _).mp ((hrecord stop).mpr ⟨stop, hstop, rfl⟩)
    obtain rfl : stop.rel = rel := pair.destination.below_inj
      (hsegments _ hstop) (hcourse.segments hlist hvisited) (congrArg Pair.destination hplace)
    exact hvisited

theorem Course.took_iff_exists_stop {action : Action} (haction : action ≠ .recurse)
    {rel : List Name} : (rel, .took action) ∈ steps ↔
      ∃ stop ∈ tour answers rules depth pair false false,
        stop.takes action = true ∧ stop.rel = rel := by
  have hvisited : ∀ stop : Stop, (stop.rel, .visited stop.source stop.destination) ∈ steps ↔
      stop ∈ tour answers rules depth pair false false :=
    fun _ => hcourse.visited_iff_mem_tour hlist hfollows hvisits
  constructor
  · intro htook
    obtain ⟨source, destination, hmem, haction, -⟩ := hcourse.exists_visited_of_took htook
    let stop : Stop := ⟨rel, source, destination⟩
    exact ⟨stop, (hvisited stop).mp hmem, decide_eq_true haction, rfl⟩
  · rintro ⟨stop, hstop, htakes, rfl⟩
    have hmem := (hvisited stop).mpr hstop
    exact hcourse.took_of_ended rfl hmem (of_decide_eq_true htakes) haction

/-- The places where a course took an action are those with the action in their rows. -/
theorem Course.takenAt_perm {action : Action} (haction : action ≠ .recurse)
    (hnodup : (takenAt action steps).Nodup) :
    (takenAt action steps).Perm
      (((tour answers rules depth pair false false).filter (Stop.takes action)).map Stop.rel) := by
  have hplaces := nodup_places answers rules depth pair
  refine (List.perm_ext_iff_of_nodup hnodup ?_).mpr fun rel => ?_
  · exact hplaces.sublist (List.filter_sublist.map Stop.rel)
  · rw [mem_takenAt, hcourse.took_iff_exists_stop hlist hfollows hvisits haction, List.mem_map]
    simp only [List.mem_filter, and_assoc]

end

/-! ## Walks -/

/-- What a walk through a pair leaves behind is what the rows of the stops say. -/
structure Run.Does (answers : (q : Query) → Except Failure q.Answer) (pair : Pair)
    (stops : List Stop) (finish : Run σ τ) : Prop where
  visits : finish.visits = stops.map (Stop.record pair)
  commands : finish.commands.Perm (stops.flatMap (Stop.commands answers pair))
  adds : ∃ rels : List (List Name),
    finish.session.adds.toList = rels.map pair.destination.below ∧
      rels.Perm ((stops.filter (Stop.takes .queueAdd)).map Stop.rel)
  deletes : ∃ rels : List (List Name),
    finish.session.deletes.toList = rels.map pair.destination.below ∧
      rels.Perm ((stops.filter (Stop.takes .queueDelete)).map Stop.rel)
  conflict : finish.session.conflict = stops.any (Stop.takes .flagConflict)

section
variable (hall : ∀ query, ∃ answer, answers query = .ok answer) (hout : out.AcceptsAll)
  (hlist : ∀ path names, answers (.list path) = .ok names → ∀ name ∈ names, EntryName name)
  {pair : Pair} (htext : pair.IsText) {depth : Nat}
include hall hout hlist htext

/-- **A walk does what the rows of its stops say**, if it comes to its end. -/
theorem exists_run_does {budget : Nat} (hdepth : budget ≤ depth) (sink : τ)
    (h : (walk rules budget pair).concludes (.ofAnswers answers) out ⟨(), sink, {}, #[]⟩ = true) :
    ∃ finish, (walk rules budget pair).run (.ofAnswers answers) out ⟨(), sink, {}, #[]⟩ =
        (.ok (), finish) ∧
      Completes answers rules depth pair false false ∧
      finish.Does answers pair (tour answers rules depth pair false false) := by
  have hsegment : ∀ path names, (FileSystem.ofAnswers answers).Gives (.list path) names →
      ∀ name ∈ names, Segment name := fun path names hgives name hname =>
    (hlist path names (gives_ofAnswers_iff.mp hgives) name hname).segment
  have hcut : CutOf (Recursive.walk rules budget pair) (Recursive.walk rules depth pair) :=
    cutOf_of_le (fun n => visit_cutOf_succ n _ _ _) hdepth
  obtain ⟨hconcludes, hsame⟩ := walk_run_eq h
  obtain ⟨hdeep, hrec⟩ := hcut.run_eq hconcludes
  obtain ⟨⟨⟩, finish, hrun, hhanded⟩ :=
    gets_visit hall hout hlist depth htext false false ⟨(), sink, {}, #[]⟩ hdeep
  have hwalk := hsame.trans (hrec.symm.trans hrun)
  obtain ⟨hcompletes, hvisits⟩ := tours_walk hdepth pair _ _ _ hwalk
  obtain ⟨steps, hcourse, hfollows⟩ := exists_course_walk_ok hwalk
  have hadds := hcourse.nodup_map_takenAt hsegment (fun _ hnot => hnot List.prefix_rfl)
    (pairwise_takenAt_queueAdd hcourse)
  have hdeletes := hcourse.nodup_map_takenAt hsegment (fun _ hnot => hnot List.prefix_rfl)
    (pairwise_takenAt_queueDelete hcourse)
  refine ⟨finish, hwalk, hcompletes, hvisits, hhanded, ?_, ?_, ?_⟩
  · exact ⟨_, hfollows.adds,
      hcourse.takenAt_perm hsegment hfollows hvisits (by decide) hadds.of_map⟩
  · exact ⟨_, hfollows.deletes,
      hcourse.takenAt_perm hsegment hfollows hvisits (by decide) hdeletes.of_map⟩
  · have htook : ∀ rel, (rel, .took .flagConflict) ∈ steps ↔ _ :=
      fun _ => hcourse.took_iff_exists_stop hsegment hfollows hvisits (by decide)
    rw [Bool.eq_iff_iff, hfollows.conflict, List.any_eq_true]
    constructor
    · rintro ⟨rel, hmem⟩
      obtain ⟨stop, hstop, htakes, -⟩ := (htook rel).mp hmem
      exact ⟨stop, hstop, htakes⟩
    · rintro ⟨stop, hstop, htakes⟩
      exact ⟨stop.rel, (htook stop.rel).mpr ⟨stop, hstop, htakes, rfl⟩⟩

end

end TreePlan

import TreePlan.Proofs.Events

/-!
# The tour of a walk

Over a file system that stands still, the visits of a walk are known beforehand: `tour` lists them,
by recursion on the depth, each with the names that lead there and the kinds found on both sides.

* `tours_walk`: a walk that comes to its end has logged the visits of the tour, one record each and
  in this order, whatever its sink is and whatever else it did;
* `pairwise_tour`: the order is that of the names, so no place is visited twice;
* `exists_child`: the walk has then been to all entries of the directories that it visited.
-/

namespace TreePlan

variable {σ τ α β : Type} {fs : FileSystem σ} {out : Sink τ} {rules : Rules}

/-! ## The visits in a log -/

/-- The records of the visits, in order. They are all that a run logs for debugging. -/
def Run.visits (run : Run σ τ) : List LogRecord :=
  run.records.filter fun record => record.level = .debug

theorem LogRecord.level_eq_debug_iff {record : LogRecord} :
    record.level = .debug ↔ ∃ source destination pair, record = .visiting source destination pair := by
  cases record <;> simp [level]

theorem mem_visits_iff {run : Run σ τ} {source destination : Kind} {pair : Pair} :
    .visiting source destination pair ∈ run.visits ↔
      .logged (.visiting source destination pair) ∈ run.events.toList := by
  rw [Run.visits, List.mem_filter, mem_records_iff]
  exact and_iff_left rfl

@[simp] theorem Run.visits_happened_visiting (run : Run σ τ) (source destination : Kind)
    (pair : Pair) : (run.happened (.logged (.visiting source destination pair))).visits =
      run.visits ++ [.visiting source destination pair] := by
  rw [Run.visits, records_happened_logged, List.filter_append]
  rfl

/-- A dialogue that logs no visit leaves the visits as they are. -/
theorem Dialogue.Only.visits_eq {P : Request → Prop} {d : Dialogue α} (hd : Only P d)
    (hnot : ∀ source destination pair, ¬ P (.log (.visiting source destination pair)))
    (fs : FileSystem σ) (out : Sink τ) (start : Run σ τ) :
    (d.run fs out start).2.visits = start.visits := by
  refine hd.keeps (fun run => run.visits = start.visits) (fun r hr run h => ?_) rfl
  obtain ⟨new, hnew, hrequest⟩ := Run.exists_events_reply fs out r run
  have hnone : ∀ record, Event.logged record ∈ new → record.level ≠ .debug := by
    intro record hrecord hlevel
    obtain ⟨source, destination, pair, rfl⟩ := LogRecord.level_eq_debug_iff.mp hlevel
    exact hnot _ _ _ (hrequest _ hrecord ▸ hr)
  rw [← h, Run.visits, Run.records, hnew, List.filterMap_append, List.filter_append]
  refine (congrArg _ (List.filter_eq_nil_iff.mpr fun record hmem => ?_)).trans
    (List.append_nil _)
  obtain ⟨event, hevent, heq⟩ := List.mem_filterMap.mp hmem
  cases event with
  | logged => cases heq; exact decide_eq_true_iff.not.mpr (hnone _ hevent)
  | asked | emitted => cases heq

/-! ## The tour -/

/-- One visit: the names that lead to the place, and what was found there on either side. -/
structure Stop where
  rel : List Name
  source : Kind
  destination : Kind
  deriving DecidableEq, Repr

namespace Stop

/-- The visit, seen from the directory that has the name. -/
def below (name : Name) (stop : Stop) : Stop := { stop with rel := name :: stop.rel }

def record (pair : Pair) (stop : Stop) : LogRecord :=
  .visiting stop.source stop.destination (pair.below stop.rel)

end Stop

section
variable (answers : (q : Query) → Except Failure q.Answer) (rules : Rules)

/-- What a walk takes for the kind of a side. -/
def kindFound (gone : Bool) (path : Path) : Kind :=
  if gone then .missing else (answers (.classify path)).toOption.getD .missing

/-- What a walk takes for the entries of a side. -/
def namesFound (kind : Kind) (path : Path) : List Name :=
  if kind = .directory then (answers (.list path)).toOption.getD [] else []

def childrenFound (pair : Pair) (source destination : Kind) : List Name :=
  Walk.visible rules
    (namesFound answers source pair.source ++ namesFound answers destination pair.destination)

/-- The visits of a pair and of all below it, at most `depth` levels down, in order. -/
def tour : (depth : Nat) → Pair → (sourceGone destinationGone : Bool) → List Stop
  | 0, _, _, _ => []
  | depth + 1, pair, sourceGone, destinationGone =>
    let source := kindFound answers sourceGone pair.source
    let destination := kindFound answers destinationGone pair.destination
    ⟨[], source, destination⟩ ::
      (childrenFound answers rules pair source destination).flatMap fun name =>
        (tour depth (pair.child name) (source != .directory) (destination != .directory)).map
          (Stop.below name)

/-- Nothing fails on the tour, and it comes to its end. -/
def Completes : (depth : Nat) → Pair → (sourceGone destinationGone : Bool) → Prop
  | 0, _, _, _ => False
  | depth + 1, pair, sourceGone, destinationGone =>
    let source := kindFound answers sourceGone pair.source
    let destination := kindFound answers destinationGone pair.destination
    Found (fun query answer => answers query = .ok answer) sourceGone pair.source source ∧
      Found (fun query answer => answers query = .ok answer) destinationGone pair.destination
        destination ∧
      ∀ name ∈ childrenFound answers rules pair source destination,
        Completes depth (pair.child name) (source != .directory) (destination != .directory)

end

variable {answers : (q : Query) → Except Failure q.Answer}

/-! ## The visits are those of the tour -/

/-- Where the dialogue gets a result, `Q` holds of it, and `records` are the visits that it logs. -/
def Dialogue.Tours (answers : (q : Query) → Except Failure q.Answer) (out : Sink τ)
    (records : List LogRecord) (Q : α → Prop) (d : Dialogue α) : Prop :=
  ∀ start finish value, d.run (.ofAnswers answers) out start = (.ok value, finish) →
    Q value ∧ finish.visits = start.visits ++ records

namespace Dialogue

variable {records others : List LogRecord} {Q : α → Prop} {Q' : β → Prop} {d : Dialogue α}

theorem Tours.bind {f : α → Dialogue β} (hd : Tours answers out records Q d)
    (hf : ∀ value, Q value → Tours answers out others Q' (f value)) :
    Tours answers out (records ++ others) Q' (d >>= f) := by
  intro start finish value hrun
  obtain ⟨first, mid, hfirst, hrest⟩ := run_bind_ok.mp hrun
  obtain ⟨hQ, hvisits⟩ := hd _ _ _ hfirst
  obtain ⟨hQ', hmore⟩ := hf first hQ _ _ _ hrest
  exact ⟨hQ', by rw [hmore, hvisits, List.append_assoc]⟩

theorem Tours.mono {R : α → Prop} (hd : Tours answers out records Q d)
    (hQ : ∀ value, Q value → R value) : Tours answers out records R d := by
  intro start finish value hrun
  exact (hd start finish value hrun).imp_left (hQ value)

theorem tours_done {value : α} (h : Q value) : Tours answers out [] Q (.done value) := by
  rintro start _ _ ⟨⟩
  exact ⟨h, (List.append_nil _).symm⟩

/-- A dialogue that logs no visit adds none. -/
theorem Only.tours {P : Request → Prop} (hd : Only P d)
    (hnot : ∀ source destination pair, ¬ P (.log (.visiting source destination pair)))
    (hQ : ∀ start finish value, d.run (.ofAnswers answers) out start = (.ok value, finish) →
      Q value) : Tours answers out [] Q d := by
  intro start finish value hrun
  have hvisits := hd.visits_eq hnot (.ofAnswers answers) out start
  rw [hrun] at hvisits
  exact ⟨hQ _ _ _ hrun, hvisits.trans (List.append_nil _).symm⟩

theorem tours_log_visiting (source destination : Kind) (pair : Pair) :
    Tours answers out [.visiting source destination pair] (fun _ => True)
      (log (.visiting source destination pair)) := by
  intro start finish value hrun
  rw [run_log] at hrun
  cases hrun
  exact ⟨trivial, start.visits_happened_visiting _ _ _⟩

theorem tours_forM {ι : Type} {f : ι → Dialogue Unit} {stops : ι → List LogRecord} {R : ι → Prop}
    {xs : List ι} (h : ∀ x, Tours answers out (stops x) (fun _ => R x) (f x)) :
    Tours answers out (xs.flatMap stops) (fun _ => ∀ x ∈ xs, R x) (forM xs f) := by
  induction xs with
  | nil => exact tours_done (List.forall_mem_nil _)
  | cons x xs ih =>
      rw [List.forM_cons, List.flatMap_cons]
      refine (h x).bind fun _ hx => ih.mono fun _ hxs => ?_
      exact List.forall_mem_cons.mpr ⟨hx, hxs⟩

end Dialogue

open Dialogue

theorem ok_of_run_ask {query : Query} {answer : query.Answer} {start finish : Run Unit τ}
    (h : (request (.ask query)).run (.ofAnswers answers) out start = (.ok answer, finish)) :
    answers query = .ok answer := by
  rw [run_request] at h
  exact congrArg Prod.fst h

theorem tours_kindAt (gone : Bool) (path : Path) :
    Tours answers out []
      (fun kind => kind = kindFound answers gone path ∧
        Found (fun query answer => answers query = .ok answer) gone path kind)
      (Walk.kindAt gone path) := by
  refine (silent_kindAt gone path).tours (fun _ _ _ h => Bool.noConfusion h) ?_
  intro start finish value hrun
  cases gone with
  | true =>  -- not asked
      cases hrun
      exact ⟨rfl, rfl⟩
  | false =>  -- asked
      have hanswer := ok_of_run_ask hrun
      refine ⟨?_, hanswer⟩
      rw [kindFound, if_neg Bool.false_ne_true, hanswer]
      rfl

theorem not_about_visiting (pair : Pair) (source destination : Kind) (place : Pair) :
    ¬ Request.About pair (.log (.visiting source destination place)) := by
  intro h
  cases h

theorem namesFound_of_run_entriesAt {kind : Kind} {path : Path} {names : List Name}
    {start finish : Run Unit τ}
    (h : (Walk.entriesAt kind path).run (.ofAnswers answers) out start = (.ok names, finish)) :
    names = namesFound answers kind path := by
  unfold Walk.entriesAt at h
  unfold namesFound
  split at h
  · next hdir =>
    rw [if_pos hdir, ok_of_run_ask h]
    rfl
  · next hdir =>
    rw [if_neg hdir]
    cases h
    rfl

theorem tours_childNames (pair : Pair) (source destination : Kind) :
    Tours answers out [] (· = childrenFound answers rules pair source destination)
      (Walk.childNames rules pair source destination) := by
  have honly : Only (Request.About pair) (Walk.childNames rules pair source destination) :=
    only_childNames source destination .listSource .listDestination
  refine honly.tours (not_about_visiting pair) ?_
  intro start finish names hrun
  obtain ⟨inSource, _, hsource, hrun⟩ := run_bind_ok.mp hrun
  obtain ⟨inDestination, _, hdestination, hrun⟩ := run_bind_ok.mp hrun
  cases hrun
  rw [childrenFound, ← namesFound_of_run_entriesAt hsource, ← namesFound_of_run_entriesAt hdestination]

theorem childrenFound_of_ne {pair : Pair} {source destination : Kind} (hs : source ≠ .directory)
    (hd : destination ≠ .directory) : childrenFound answers rules pair source destination = [] := by
  rw [childrenFound, namesFound, namesFound, if_neg hs, if_neg hd]
  exact Walk.visible_nil rules

/-- In a row there is `recurse` once, or else there are no children. -/
theorem flatMap_policy {γ : Type} {source destination : Kind} {records : List γ}
    (h : source ≠ .directory → destination ≠ .directory → records = []) :
    ((policy source destination).flatMap fun action =>
      if action = .recurse then records else []) = records := by
  cases source <;> cases destination <;> simp_all [policy]

section
variable {below : Pair → Bool → Bool → Dialogue Unit} {stops : Pair → Bool → Bool → List Stop}
  {R : Pair → Bool → Bool → Prop}
  (hbelow : ∀ pair sourceGone destinationGone,
    Tours answers out ((stops pair sourceGone destinationGone).map (Stop.record pair))
      (fun _ => R pair sourceGone destinationGone) (below pair sourceGone destinationGone))
include hbelow

/-- Of the actions, only `recurse` leads to visits: those of the children. -/
theorem tours_act (pair : Pair) (source destination : Kind) (action : Action) :
    Tours answers out
      (if action = .recurse then
        ((childrenFound answers rules pair source destination).flatMap fun name =>
          (stops (pair.child name) (source != .directory) (destination != .directory)).map
            (Stop.below name)).map (Stop.record pair)
      else [])
      (fun _ => action = .recurse → ∀ name ∈ childrenFound answers rules pair source destination,
        R (pair.child name) (source != .directory) (destination != .directory))
      (Recursive.act rules below pair source destination action) := by
  by_cases haction : action = .recurse
  · subst haction
    rw [if_pos rfl, List.map_flatMap]
    refine (tours_childNames pair source destination).bind ?_
    rintro _ rfl
    refine (tours_forM fun name => ?_).mono fun _ hall _ => hall
    rw [List.map_map]
    exact hbelow _ _ _
  · -- no other action comes to a visit
    rw [if_neg haction]
    intro start finish value hrun
    have honly := (makes_perform rules pair source destination [action]).only
    rw [perform_cons haction below] at honly
    have hvisits := honly.visits_eq (not_about_visiting pair) (.ofAnswers answers) out start
    rw [run_bind, hrun] at hvisits
    exact ⟨fun heq => absurd heq haction, hvisits.trans (List.append_nil _).symm⟩

theorem tours_row (pair : Pair) (source destination : Kind) :
    Tours answers out
      (((childrenFound answers rules pair source destination).flatMap fun name =>
        (stops (pair.child name) (source != .directory) (destination != .directory)).map
          (Stop.below name)).map (Stop.record pair))
      (fun _ => ∀ name ∈ childrenFound answers rules pair source destination,
        R (pair.child name) (source != .directory) (destination != .directory))
      (forM (policy source destination) (Recursive.act rules below pair source destination)) := by
  have hrow : Tours answers out _ _
      (forM (policy source destination) (Recursive.act rules below pair source destination)) :=
    tours_forM fun action => tours_act hbelow pair source destination action
  have hnone : source ≠ .directory → destination ≠ .directory →
      childrenFound answers rules pair source destination = [] := childrenFound_of_ne
  rw [flatMap_policy fun hs hd => by rw [hnone hs hd]; rfl] at hrow
  refine hrow.mono fun _ hall name hname => ?_
  refine hall .recurse ((recurse_mem_policy_iff source destination).mpr ?_) rfl name hname
  by_contra hnot
  rw [hnone (fun hs => hnot (.inl hs)) (fun hd => hnot (.inr hd))] at hname
  exact absurd hname List.not_mem_nil

end

/-- **The visits of a visit are those of its tour.** -/
theorem tours_visit (depth : Nat) (pair : Pair) (sourceGone destinationGone : Bool) :
    Tours answers out
      ((tour answers rules depth pair sourceGone destinationGone).map (Stop.record pair))
      (fun _ => Completes answers rules depth pair sourceGone destinationGone)
      (Recursive.visit rules depth pair sourceGone destinationGone) := by
  induction depth generalizing pair sourceGone destinationGone with
  | zero => exact nofun
  | succ depth ih =>
      have htext : ∀ path, Tours answers out [] (fun _ => True) (Walk.requireText path) := by
        intro path
        unfold Walk.requireText
        split
        · exact tours_done trivial
        · exact nofun
      rw [tour, Recursive.visit]
      refine (htext _).bind fun _ _ => (htext _).bind fun _ _ => ?_
      refine (tours_kindAt _ _).bind ?_
      rintro source ⟨rfl, hsource⟩
      refine (tours_kindAt _ _).bind ?_
      rintro destination ⟨rfl, hdestination⟩
      refine (tours_log_visiting _ _ pair).bind fun _ _ => ?_
      exact (tours_row ih pair _ _).mono fun _ hchildren => ⟨hsource, hdestination, hchildren⟩

/-- **The visits of a walk are those of its tour**, and it does not get further down than its budget
goes. -/
theorem tours_walk {budget depth : Nat} (hdepth : budget ≤ depth) (pair : Pair) :
    Tours answers out ((tour answers rules depth pair false false).map (Stop.record pair))
      (fun _ => Completes answers rules depth pair false false) (walk rules budget pair) := by
  intro start finish value hrun
  have hcut : CutOf (Recursive.walk rules budget pair) (Recursive.walk rules depth pair) :=
    cutOf_of_le (fun n => visit_cutOf_succ n _ _ _) hdepth
  obtain ⟨hconcludes, hsame⟩ := walk_run_eq (concludes_of_run_ok _ _ hrun)
  have hdeep := (hcut.run_eq hconcludes).2.trans (hsame.symm.trans hrun)
  exact tours_visit depth pair false false _ _ _ hdeep

/-! ## Places of the tour -/

section
variable {depth : Nat} {pair : Pair} {sourceGone destinationGone : Bool} {stop : Stop}

theorem mem_tour_succ :
    stop ∈ tour answers rules (depth + 1) pair sourceGone destinationGone ↔
      stop = ⟨[], kindFound answers sourceGone pair.source,
        kindFound answers destinationGone pair.destination⟩ ∨
      ∃ name ∈ childrenFound answers rules pair (kindFound answers sourceGone pair.source)
          (kindFound answers destinationGone pair.destination),
        ∃ inner ∈ tour answers rules depth (pair.child name)
            (kindFound answers sourceGone pair.source != .directory)
            (kindFound answers destinationGone pair.destination != .directory),
          stop = inner.below name := by
  simp only [tour, List.mem_cons, List.mem_flatMap, List.mem_map, eq_comm]

/-- Places are visited in the order of the names that lead there, each once. -/
theorem pairwise_tour (answers : (q : Query) → Except Failure q.Answer) (rules : Rules) (depth : Nat)
    (pair : Pair) (sourceGone destinationGone : Bool) :
    ((tour answers rules depth pair sourceGone destinationGone).map Stop.rel).Pairwise (· < ·) := by
  induction depth generalizing pair sourceGone destinationGone with
  | zero => exact .nil
  | succ depth ih =>
      rw [tour, List.map_cons, List.map_flatMap, List.pairwise_cons, List.pairwise_flatMap]
      refine ⟨?_, ?_, ?_⟩
      · -- the place comes before all that is below it
        intro rel hrel
        obtain ⟨name, -, hrel⟩ := List.mem_flatMap.mp hrel
        obtain ⟨stop, hstop, rfl⟩ := List.mem_map.mp hrel
        obtain ⟨inner, -, rfl⟩ := List.mem_map.mp hstop
        exact List.nil_lt_cons _ _
      · -- below one child
        intro name _
        rw [List.map_map, List.pairwise_map]
        exact (List.pairwise_map.mp (ih _ _ _)).imp fun h => List.cons_lt_cons_iff.mpr (.inr ⟨rfl, h⟩)
      · -- below two children, whose names decide
        refine (pairwise_nameSet _).imp ?_
        intro name other hlt rel hrel rel' hrel'
        obtain ⟨stop, hstop, rfl⟩ := List.mem_map.mp hrel
        obtain ⟨inner, -, rfl⟩ := List.mem_map.mp hstop
        obtain ⟨stop', hstop', rfl⟩ := List.mem_map.mp hrel'
        obtain ⟨inner', -, rfl⟩ := List.mem_map.mp hstop'
        exact List.cons_lt_cons_iff.mpr (.inl hlt)

/-- With a place its children are on the tour, and what is said of them was asked, unless it is known
without asking. -/
theorem exists_child (hcompletes : Completes answers rules depth pair sourceGone destinationGone)
    (hstop : stop ∈ tour answers rules depth pair sourceGone destinationGone) {name : Name}
    (hname : name ∈ childrenFound answers rules (pair.below stop.rel) stop.source stop.destination) :
    ∃ child ∈ tour answers rules depth pair sourceGone destinationGone,
      child.rel = stop.rel ++ [name] ∧
        Found (fun query answer => answers query = .ok answer) (stop.source != .directory)
          (pair.below child.rel).source child.source ∧
        Found (fun query answer => answers query = .ok answer) (stop.destination != .directory)
          (pair.below child.rel).destination child.destination := by
  induction depth generalizing pair sourceGone destinationGone stop with
  | zero => exact absurd hstop List.not_mem_nil
  | succ depth ih =>
      obtain ⟨-, -, hchildren⟩ := hcompletes
      rcases mem_tour_succ.mp hstop with rfl | ⟨first, hfirst, inner, hinner, rfl⟩
      · -- a child of the pair itself
        have hchild := hchildren name hname
        cases depth with
        | zero => exact hchild.elim
        | succ depth =>
            refine ⟨_, mem_tour_succ.mpr (.inr ⟨name, hname, _, mem_tour_succ.mpr (.inl rfl), rfl⟩),
              rfl, hchild.1, hchild.2.1⟩
      · -- a child of a place below
        obtain ⟨child, hchild, hrel, hfound⟩ := ih (hchildren first hfirst) hinner hname
        refine ⟨child.below first, ?_, congrArg (first :: ·) hrel, hfound⟩
        exact mem_tour_succ.mpr (.inr ⟨first, hfirst, child, hchild, rfl⟩)

end

end TreePlan

import TreePlan.Proofs.Forest
import TreePlan.Proofs.Recursion

/-!
# What a walk over a forest leaves behind

Over a forest a walk does what `Forest.steps` says and nothing else. It can only be broken
off by the sink, or by a pair whose path is no text.

* `UnlessRefused` is said of runs that get a result, or else end because the sink refused a
  command.
* `Forest.Takes` relates two states of a run by the steps taken in between: the commands, the
  two queues and the flag grow by what the steps say.
* `Forest.unlessRefused_walk` puts both together for a walk that is not cut short.
-/

namespace TreePlan

/-! ## Runs that only the sink can stop -/

namespace Dialogue

variable {σ τ α β : Type}

/-- The run gets a result, with which and with the state it leaves behind `P` holds, or it
ends because the sink refused a command. -/
def UnlessRefused (fs : FileSystem σ) (out : Sink τ) (d : Dialogue α) (start : Run σ τ)
    (P : α → Run σ τ → Prop) : Prop :=
  match d.run fs out start with
  | (.ok value, after) => P value after
  | (.error failure, _) =>
    ∃ command sink cause, (out.accept command sink).1 = .error cause ∧ failure = .emit cause

section
variable {fs : FileSystem σ} {out : Sink τ} {start : Run σ τ} {P : α → Run σ τ → Prop}

theorem unlessRefused_done {value : α} (h : P value start) :
    UnlessRefused fs out (.done value) start P := h

theorem unlessRefused_bind {d : Dialogue α} {f : α → Dialogue β} {Q : β → Run σ τ → Prop}
    (hd : UnlessRefused fs out d start P)
    (hf : ∀ value after, P value after → UnlessRefused fs out (f value) after Q) :
    UnlessRefused fs out (d >>= f) start Q := by
  unfold UnlessRefused at hd ⊢
  rw [run_bind]
  rcases hrun : d.run fs out start with ⟨failure | value, after⟩
  · rw [hrun] at hd
    exact hd
  · rw [hrun] at hd
    exact hf value after hd

theorem unlessRefused_log (record : LogRecord) :
    UnlessRefused fs out (log record) start
      fun _ after => after = start.happened (.logged record) := by
  unfold UnlessRefused
  rw [run_log]

theorem unlessRefused_note {n : Note} {P : Unit → Run σ τ → Prop}
    (h : P () { start with session := start.session.note n }) :
    UnlessRefused fs out (note n) start P := by
  unfold UnlessRefused
  rw [run_note]
  exact h

theorem UnlessRefused.mono {d : Dialogue α} {Q : α → Run σ τ → Prop}
    (h : UnlessRefused fs out d start P) (hPQ : ∀ value after, P value after → Q value after) :
    UnlessRefused fs out d start Q := by
  rw [← bind_done d]
  exact unlessRefused_bind h fun value after hP => unlessRefused_done (hPQ value after hP)

/-- What only the sink can stop is not cut short. -/
theorem UnlessRefused.concludes {d : Dialogue α} (h : UnlessRefused fs out d start P) :
    d.concludes fs out start = true := by
  apply concludes_of_run_ne
  unfold UnlessRefused at h
  rcases hrun : d.run fs out start with ⟨failure | value, after⟩
  · rw [hrun] at h
    obtain ⟨_, _, _, -, rfl⟩ := h
    exact nofun
  · exact nofun

theorem UnlessRefused.of_run_ok {d : Dialogue α} (h : UnlessRefused fs out d start P) {value : α}
    {after : Run σ τ} (hrun : d.run fs out start = (.ok value, after)) : P value after := by
  unfold UnlessRefused at h
  rw [hrun] at h
  exact h

/-- With a sink that takes everything there is a result. -/
theorem UnlessRefused.exists_run_ok {d : Dialogue α} (h : UnlessRefused fs out d start P)
    (hout : out.AcceptsAll) :
    ∃ value after, d.run fs out start = (.ok value, after) ∧ P value after := by
  unfold UnlessRefused at h
  rcases hrun : d.run fs out start with ⟨failure | value, after⟩
  · rw [hrun] at h
    obtain ⟨command, sink, cause, hrefused, -⟩ := h
    obtain ⟨next, haccept⟩ := hout command sink
    rw [haccept] at hrefused
    cases hrefused
  · rw [hrun] at h
    exact ⟨value, after, rfl, h⟩

end

end Dialogue

/-! ## What the steps of a walk come to -/

/-- The destination of a step with the given action. -/
def Pair.destinationOf? (pair : Pair) (action : Action) (step : List Name × Action) :
    Option Path :=
  if step.2 = action then some (pair.below step.1).destination else none

def Action.note? (destination : Path) : Action → Option Note
  | .queueAdd => some (.add destination)
  | .queueDelete => some (.delete destination)
  | .flagConflict => some .conflict
  | .remove | .copy | .copyIfDifferent | .mkdir | .recurse => none

namespace Forest

variable (forest : Forest) {σ τ : Type}

def command? (pair : Pair) (step : List Name × Action) : Option Command :=
  let place := pair.below step.1
  match step.2 with
  | .remove => some (.remove place.destination (forest.kind place.destination = .directory))
  | .copy => some (.copy place.source place.destination)
  | .copyIfDifferent =>
    if forest.contents place.source = forest.contents place.destination then none
    else some (.copy place.source place.destination)
  | .mkdir => some (.mkdir place.destination)
  | .recurse | .queueAdd | .queueDelete | .flagConflict => none

/-- Between two states of a run the given steps were taken, and nothing else. -/
structure Takes (pair : Pair) (steps : List (List Name × Action)) (start finish : Run σ τ) :
    Prop where
  commands : finish.commands = start.commands ++ steps.filterMap (forest.command? pair)
  adds : finish.session.adds.toList =
    start.session.adds.toList ++ steps.filterMap (pair.destinationOf? .queueAdd)
  deletes : finish.session.deletes.toList =
    start.session.deletes.toList ++ steps.filterMap (pair.destinationOf? .queueDelete)
  conflict : finish.session.conflict =
    (start.session.conflict || steps.any fun step => step.2 = .flagConflict)

variable {forest}

namespace Takes

variable {pair : Pair} {start mid finish : Run σ τ} {xs ys : List (List Name × Action)}

theorem refl (pair : Pair) (start : Run σ τ) : forest.Takes pair [] start start :=
  ⟨by simp, by simp, by simp, by simp⟩

theorem trans (hx : forest.Takes pair xs start mid) (hy : forest.Takes pair ys mid finish) :
    forest.Takes pair (xs ++ ys) start finish where
  commands := by rw [hy.commands, hx.commands, List.filterMap_append, List.append_assoc]
  adds := by rw [hy.adds, hx.adds, List.filterMap_append, List.append_assoc]
  deletes := by rw [hy.deletes, hx.deletes, List.filterMap_append, List.append_assoc]
  conflict := by rw [hy.conflict, hx.conflict, List.any_append, Bool.or_assoc]

/-- The steps for a child are steps for the pair, one name further down. -/
theorem of_child {name : Name} (h : forest.Takes (pair.child name) xs start finish) :
    forest.Takes pair (xs.map fun step => (name :: step.1, step.2)) start finish where
  commands := by rw [h.commands, List.filterMap_map]; rfl
  adds := by rw [h.adds, List.filterMap_map]; rfl
  deletes := by rw [h.deletes, List.filterMap_map]; rfl
  conflict := by rw [h.conflict, List.any_map]; rfl

/-- A log record is no step. -/
theorem happened_logged (pair : Pair) (start : Run σ τ) (record : LogRecord) :
    forest.Takes pair [] start (start.happened (.logged record)) :=
  ⟨by simp, by simp [Run.happened], by simp [Run.happened], by simp [Run.happened]⟩

/-- Files of the same contents are left as they are. -/
theorem copyIfDifferent_of_eq
    (h : forest.contents pair.source = forest.contents pair.destination) (start : Run σ τ) :
    forest.Takes pair [([], .copyIfDifferent)] start start :=
  ⟨by simp [command?, h], by simp [Pair.destinationOf?], by simp [Pair.destinationOf?], by simp⟩

theorem note {action : Action} {pair : Pair} {n : Note}
    (h : action.note? pair.destination = some n) (start : Run σ τ) :
    forest.Takes pair [([], action)] start { start with session := start.session.note n } := by
  cases action <;> cases h
  all_goals
    exact ⟨by simp [command?, Run.commands], by simp [Session.note, Pair.destinationOf?],
      by simp [Session.note, Pair.destinationOf?], by simp [Session.note]⟩

end Takes

/-! ## The parts of a walk -/

section
variable {rules : Rules} {out : Sink τ} {start : Run Unit τ} {pair : Pair}

/-- One dialogue after another takes the steps of both. -/
theorem unlessRefused_seq {d e : Dialogue Unit} {xs ys : List (List Name × Action)}
    (hd : d.UnlessRefused forest.fileSystem out start fun _ => forest.Takes pair xs start)
    (he : ∀ mid, e.UnlessRefused forest.fileSystem out mid fun _ => forest.Takes pair ys mid) :
    (d >>= fun _ => e).UnlessRefused forest.fileSystem out start
      fun _ => forest.Takes pair (xs ++ ys) start :=
  Dialogue.unlessRefused_bind hd fun _ mid hx => (he mid).mono fun _ _ hy => hx.trans hy

theorem unlessRefused_forM {ι : Type} {f : ι → Dialogue Unit}
    {steps : ι → List (List Name × Action)} {xs : List ι}
    (h : ∀ x ∈ xs, ∀ start : Run Unit τ, (f x).UnlessRefused forest.fileSystem out start
      fun _ => forest.Takes pair (steps x) start) (start : Run Unit τ) :
    (forM xs f).UnlessRefused forest.fileSystem out start
      fun _ => forest.Takes pair (xs.flatMap steps) start := by
  induction xs generalizing start with
  | nil => exact Dialogue.unlessRefused_done (.refl pair start)
  | cons x xs ih =>
      rw [List.forall_mem_cons] at h
      rw [List.forM_cons, List.flatMap_cons]
      exact unlessRefused_seq (h.1 start) (ih h.2)

/-- A question that the forest answers is no step. -/
theorem unlessRefused_ask {q : Query} {answer : q.Answer} (pair : Pair)
    (h : forest.answers q = .ok answer) (start : Run Unit τ) :
    (Dialogue.request (.ask q)).UnlessRefused forest.fileSystem out start
      fun reply after => reply = answer ∧ forest.Takes pair [] start after := by
  unfold Dialogue.UnlessRefused
  rw [Dialogue.run_request]
  have hreply : (forest.fileSystem.answer q start.files).1 = .ok answer := h
  simp only [Run.reply, hreply]
  exact ⟨trivial, by simp [Run.commands], by simp, by simp, by simp⟩

/-- A command that the sink takes is the command of its step. -/
theorem unlessRefused_emit {step : List Name × Action} {command : Command}
    (hc : forest.command? pair step = some command) (start : Run Unit τ) :
    (Dialogue.emit command).UnlessRefused forest.fileSystem out start
      fun _ => forest.Takes pair [step] start := by
  -- No action comes to a command and to a note.
  have haction : step.2 ≠ .queueAdd ∧ step.2 ≠ .queueDelete ∧ step.2 ≠ .flagConflict := by
    refine ⟨?_, ?_, ?_⟩
    all_goals
      intro h
      simp [command?, h] at hc
  unfold Dialogue.UnlessRefused Dialogue.emit
  rw [Dialogue.run_request]
  simp only [Run.reply]
  rcases haccept : out.accept command start.sink with ⟨cause | ⟨⟩, sink⟩
  · -- refused, which is a way to end
    exact ⟨command, start.sink, cause, by rw [haccept], rfl⟩
  · refine ⟨?_, ?_, ?_, ?_⟩
    · simp [Run.commands, hc]
    · simp [Session.countEmitted, Pair.destinationOf?, haction]
    · simp [Session.countEmitted, Pair.destinationOf?, haction]
    · simp [Session.countEmitted, haction]

/-- A path of text passes, and that is no step. -/
theorem requireText_eq {path : Path} (h : path.isText = true) :
    Walk.requireText path = .done () := if_pos h

theorem unlessRefused_kindAt {gone : Bool} {path : Path} (pair : Pair) (h : forest.Covers path)
    (hgone : gone = true → forest.kind path = .missing) (start : Run Unit τ) :
    (Walk.kindAt gone path).UnlessRefused forest.fileSystem out start
      fun kind after => kind = forest.kind path ∧ forest.Takes pair [] start after := by
  cases gone with
  | true => exact Dialogue.unlessRefused_done ⟨(hgone rfl).symm, .refl pair start⟩
  | false => exact unlessRefused_ask pair (forest.classify_eq h) start

theorem unlessRefused_entriesAt {path : Path} (pair : Pair) (h : forest.Covers path)
    (start : Run Unit τ) :
    (Walk.entriesAt (forest.kind path) path).UnlessRefused forest.fileSystem out start
      fun names after =>
        names = (if forest.kind path = .directory then forest.names path else []) ∧
          forest.Takes pair [] start after := by
  unfold Walk.entriesAt
  split
  · next hdir => exact unlessRefused_ask pair (forest.list_eq h hdir) start
  · exact Dialogue.unlessRefused_done ⟨rfl, .refl pair start⟩

theorem unlessRefused_childNames (h : forest.CoversPair pair) (start : Run Unit τ) :
    (Walk.childNames rules pair (forest.kind pair.source)
        (forest.kind pair.destination)).UnlessRefused forest.fileSystem out start
      fun names after =>
        names = forest.childNames rules pair ∧ forest.Takes pair [] start after := by
  unfold Walk.childNames
  refine Dialogue.unlessRefused_bind (unlessRefused_entriesAt pair h.source start) ?_
  rintro _ mid ⟨rfl, hs⟩
  refine Dialogue.unlessRefused_bind (unlessRefused_entriesAt pair h.destination mid) ?_
  rintro _ after ⟨rfl, hd⟩
  exact Dialogue.unlessRefused_done ⟨rfl, hs.trans hd⟩

/-- One action of a row takes its steps, if visiting a child takes those of the child. -/
theorem unlessRefused_act {below : Pair → Bool → Bool → Dialogue Unit}
    {stepsBelow : Pair → List (List Name × Action)} (h : forest.CoversPair pair)
    (hbelow : ∀ name ∈ forest.childNames rules pair, ∀ start : Run Unit τ,
      (below (pair.child name) (forest.kind pair.source != .directory)
          (forest.kind pair.destination != .directory)).UnlessRefused forest.fileSystem out start
        fun _ => forest.Takes (pair.child name) (stepsBelow (pair.child name)) start)
    {action : Action}
    (haction : action ∈ policy (forest.kind pair.source) (forest.kind pair.destination))
    (start : Run Unit τ) :
    (Recursive.act rules below pair (forest.kind pair.source) (forest.kind pair.destination)
        action).UnlessRefused forest.fileSystem out start
      fun _ => forest.Takes pair (forest.stepsOf rules stepsBelow pair action) start := by
  cases action with
  | remove => exact unlessRefused_emit rfl start
  | copy => exact unlessRefused_emit rfl start
  | mkdir => exact unlessRefused_emit rfl start
  | copyIfDifferent =>
      obtain ⟨hs, hd⟩ := (copyIfDifferent_mem_policy_iff _ _).mp haction
      refine Dialogue.unlessRefused_bind
        (unlessRefused_ask pair (forest.same_eq h.source h.destination hs hd) start) ?_
      rintro _ mid ⟨rfl, hmid⟩
      show Dialogue.UnlessRefused _ _ _ _ fun _ => forest.Takes pair [([], .copyIfDifferent)] start
      by_cases heq : forest.contents pair.source = forest.contents pair.destination
      · -- the contents are the same, so the step changes nothing
        rw [if_neg (by simp [heq])]
        exact Dialogue.unlessRefused_done (hmid.trans (.copyIfDifferent_of_eq heq mid))
      · -- the file is copied over the other one
        rw [if_pos (by simp [heq])]
        refine (unlessRefused_emit ?_ mid).mono fun _ _ hcopy => hmid.trans hcopy
        simp [command?, heq]
  | queueAdd => exact Dialogue.unlessRefused_note (.note rfl start)
  | queueDelete => exact Dialogue.unlessRefused_note (.note rfl start)
  | flagConflict =>
      refine Dialogue.unlessRefused_bind (Dialogue.unlessRefused_log _) ?_
      rintro _ mid rfl
      refine Dialogue.unlessRefused_note ?_
      exact (Takes.happened_logged pair start _).trans (.note rfl _)
  | recurse =>
      rw [stepsOf_recurse]
      refine Dialogue.unlessRefused_bind (unlessRefused_childNames h start) ?_
      rintro _ mid ⟨rfl, hmid⟩
      -- The listings were no steps; the steps of the children follow, one name further down.
      refine (unlessRefused_forM (fun name hname start => ?_) mid).mono fun _ _ hrest =>
        hmid.trans hrest
      exact (hbelow name hname start).mono fun _ _ hchild => hchild.of_child

/-- What a visit asks and logs before it takes any action is no step. -/
theorem unlessRefused_visit_succ {depth : Nat} {sourceGone destinationGone : Bool}
    {steps : List (List Name × Action)} (h : forest.CoversPair pair)
    (htext : pair.source.isText = true ∧ pair.destination.isText = true)
    (hs : sourceGone = true → forest.kind pair.source = .missing)
    (hd : destinationGone = true → forest.kind pair.destination = .missing)
    (hrow : ∀ mid : Run Unit τ,
      (forM (policy (forest.kind pair.source) (forest.kind pair.destination))
          (Recursive.act rules (Recursive.visit rules depth) pair (forest.kind pair.source)
            (forest.kind pair.destination))).UnlessRefused forest.fileSystem out mid
        fun _ => forest.Takes pair steps mid) (start : Run Unit τ) :
    (Recursive.visit rules (depth + 1) pair sourceGone destinationGone).UnlessRefused
      forest.fileSystem out start fun _ => forest.Takes pair steps start := by
  unfold Recursive.visit
  rw [requireText_eq htext.1, requireText_eq htext.2, Dialogue.done_bind, Dialogue.done_bind]
  refine Dialogue.unlessRefused_bind (unlessRefused_kindAt pair h.source hs start) ?_
  rintro _ asked ⟨rfl, hasked⟩
  refine Dialogue.unlessRefused_bind (unlessRefused_kindAt pair h.destination hd asked) ?_
  rintro _ known ⟨rfl, hknown⟩
  refine Dialogue.unlessRefused_bind (Dialogue.unlessRefused_log _) ?_
  rintro _ _ rfl
  refine (hrow _).mono fun _ after hafter => ?_
  exact hasked.trans (hknown.trans ((Takes.happened_logged pair known _).trans hafter))

/-- **A visit takes its steps.** Unless the sink refuses a command, visiting a pair of text
paths, with a depth that suffices for both sides, takes the steps of the pair and nothing
else. -/
theorem unlessRefused_visit {depth : Nat} {sourceGone destinationGone : Bool}
    (h : forest.CoversPair pair) (hdepth : forest.Shallow depth pair)
    (htext : pair.source.isText = true ∧ pair.destination.isText = true)
    (hs : sourceGone = true → forest.kind pair.source = .missing)
    (hd : destinationGone = true → forest.kind pair.destination = .missing)
    (start : Run Unit τ) :
    (Recursive.visit rules (depth + 1) pair sourceGone destinationGone).UnlessRefused
      forest.fileSystem out start
      fun _ => forest.Takes pair (forest.steps rules depth pair) start := by
  induction depth generalizing pair sourceGone destinationGone start with
  | zero =>
      -- Nothing exists on either side, and the row for that is empty.
      obtain ⟨hsource, hdestination⟩ := hdepth [] (fun _ hn => absurd hn List.not_mem_nil) (Nat.le_refl 0)
      refine unlessRefused_visit_succ h htext hs hd (fun mid => ?_) start
      rw [Path.below_nil] at hsource hdestination
      rw [hsource, hdestination]
      exact Dialogue.unlessRefused_done (.refl pair mid)
  | succ depth ih =>
      refine unlessRefused_visit_succ h htext hs hd (fun mid => ?_) start
      refine unlessRefused_forM (fun action haction start => ?_) mid
      refine unlessRefused_act h (fun name hname start => ?_) haction start
      obtain ⟨⟨hentry, -⟩, -⟩ := (mem_childNames h).mp hname
      have hname := forest.entryName hentry
      refine ih (h.child hentry) (hdepth.child hentry)
        ⟨Path.isText_child htext.1 hname, Path.isText_child htext.2 hname⟩ ?_ ?_ start
      -- What the walk takes for known about the children is true of a forest.
      · intro hgone
        exact forest.child_missing h.source (bne_iff_ne.mp hgone) hentry
      · intro hgone
        exact forest.child_missing h.destination (bne_iff_ne.mp hgone) hentry

/-! ## The walk -/

/-- The walk by recursion takes the steps of its pair. -/
theorem unlessRefused_recursive_walk {depth : Nat} (h : forest.CoversPair pair)
    (hdepth : forest.Shallow depth pair)
    (htext : pair.source.isText = true ∧ pair.destination.isText = true) (start : Run Unit τ) :
    (Recursive.walk rules (depth + 1) pair).UnlessRefused forest.fileSystem out start
      fun _ => forest.Takes pair (forest.steps rules depth pair) start :=
  unlessRefused_visit h hdepth htext (fun hgone => absurd hgone Bool.false_ne_true)
    (fun hgone => absurd hgone Bool.false_ne_true) start

/-- Unless the sink refuses a command, a walk that is not cut short takes the steps of its
pair and nothing else. -/
theorem unlessRefused_walk {depth budget : Nat} (h : forest.CoversPair pair)
    (hdepth : forest.Shallow depth pair)
    (htext : pair.source.isText = true ∧ pair.destination.isText = true)
    (hc : (walk rules budget pair).concludes forest.fileSystem out start = true) :
    (walk rules budget pair).UnlessRefused forest.fileSystem out start
      fun _ => forest.Takes pair (forest.steps rules depth pair) start := by
  have hwalk : (Recursive.walk rules (depth + 1) pair).UnlessRefused forest.fileSystem out start
      fun _ => forest.Takes pair (forest.steps rules depth pair) start :=
    unlessRefused_recursive_walk h hdepth htext start
  unfold Dialogue.UnlessRefused
  rw [walk_run_eq_of_concludes hc hwalk.concludes]
  exact hwalk

/-- With a sink that takes every command, and from some budget on, a walk through a pair of text
paths succeeds. Where it ends does not depend on the budget. -/
theorem exists_walk_ok (rules : Rules) (h : forest.CoversPair pair)
    (htext : pair.source.isText = true ∧ pair.destination.isText = true)
    (hout : out.AcceptsAll) (start : Run Unit τ) :
    ∃ budget finish, ∀ more, budget ≤ more →
      (walk rules more pair).run forest.fileSystem out start = (.ok (), finish) := by
  obtain ⟨depth, hdepth⟩ := exists_shallow h
  have hrecursion : (Recursive.walk rules (depth + 1) pair).concludes forest.fileSystem out
      start = true := (unlessRefused_recursive_walk h hdepth htext start).concludes
  obtain ⟨budget, hb⟩ := exists_stable_budget hrecursion
  have hc := (hb budget (Nat.le_refl budget)).1
  obtain ⟨⟨⟩, finish, hrun, -⟩ := (unlessRefused_walk h hdepth htext hc).exists_run_ok hout
  exact ⟨budget, finish, fun more hmore => (hb more hmore).2.trans hrun⟩

end

end Forest

end TreePlan

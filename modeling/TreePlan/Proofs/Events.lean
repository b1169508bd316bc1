import TreePlan.Proofs.Course

/-!
# What happens in a run

A walk refuses a pair whose paths are no text before anything else (`step_refused`), and classifies
it otherwise (`step_visit`). The requests that it makes for the pair from then on are all about the
two paths of this pair: `Request.About` lists them, and `stays_perform` says that there are no
others, and that what is left to do afterwards is for names that were listed.
-/

namespace TreePlan

variable {σ τ α β : Type} {fs : FileSystem σ} {out : Sink τ} {rules : Rules}

/-! ## Failures -/

/-- Over a file system that stands still, a query that was asked and fails has ended the run. -/
theorem Dialogue.fails_of_asked {answers : (q : Query) → Except Failure q.Answer} (d : Dialogue α)
    {start : Run Unit τ} {query : Query} {failure : Failure}
    (hasked : .asked query ∈ (d.run (.ofAnswers answers) out start).2.events.toList)
    (hfails : answers query = .error failure) :
    .asked query ∈ start.events.toList ∨
      (d.run (.ofAnswers answers) out start).1 = .error failure := by
  induction d generalizing start with
  | done | fail => exact .inl hasked
  | call r next ih =>
      obtain ⟨new, hnew, hrequest⟩ :=
        Run.exists_events_reply (.ofAnswers answers) out r start
      rw [run_call] at hasked ⊢
      rcases hr : Run.reply (.ofAnswers answers) out r start with ⟨cause | answer, after⟩
      all_goals
        rw [hr] at hasked hnew
        -- The event is an old one or comes of this request.
        have hhere : Event.asked query ∈ after.events.toList →
            .asked query ∈ start.events.toList ∨ r = .ask query := by
          intro hmem
          rw [show after.events.toList = _ from hnew, List.mem_append] at hmem
          exact hmem.imp_right fun hmem => (hrequest (.asked query) hmem).symm
      · -- the reply fails, and the run with it
        refine (hhere hasked).imp_right ?_
        rintro rfl
        have hcause : answers query = .error cause := congrArg Prod.fst hr
        rw [hfails] at hcause
        exact congrArg Except.error (Except.error.inj hcause).symm
      · -- the reply does not fail, so it answers no such query
        refine (ih answer hasked).elim (fun hmem => ?_) .inr
        refine (hhere hmem).imp_right ?_
        rintro rfl
        have hanswer : answers query = .ok answer := congrArg Prod.fst hr
        rw [hfails] at hanswer
        cases hanswer

/-! ## Steps without the check -/

/-- Both paths of the pair are text. -/
structure Pair.IsText (pair : Pair) : Prop where
  source : pair.source.isText = true
  destination : pair.destination.isText = true

instance (pair : Pair) : Decidable pair.IsText :=
  decidable_of_iff (pair.source.isText = true ∧ pair.destination.isText = true)
    ⟨fun h => ⟨h.1, h.2⟩, fun h => ⟨h.source, h.destination⟩⟩

/-- The first path of a pair that is no text, the source before the destination. -/
def Pair.refused (pair : Pair) : Path :=
  if pair.source.isText then pair.destination else pair.source

namespace Walk

/-- What `step` does for a task, but without a look at its paths. -/
def unchecked (rules : Rules) : Task → Dialogue (List Task)
  | .visit pair sourceGone destinationGone => do
    let source ← kindAt sourceGone pair.source
    let destination ← kindAt destinationGone pair.destination
    .log (.visiting source destination pair)
    perform rules pair source destination (policy source destination)
  | .resume pair source destination actions => perform rules pair source destination actions

theorem step_visit {pair : Pair} (h : pair.IsText) (sourceGone destinationGone : Bool) :
    step rules (.visit pair sourceGone destinationGone) =
      unchecked rules (.visit pair sourceGone destinationGone) := by
  simp only [step, requireText, h.source, h.destination, if_true]
  rfl

theorem step_refused {pair : Pair} (h : ¬ pair.IsText) (sourceGone destinationGone : Bool) :
    step rules (.visit pair sourceGone destinationGone) = .fail (.notText pair.refused) := by
  rw [step, requireText, requireText, Pair.refused]
  by_cases hs : pair.source.isText = true
  · have hd : ¬ pair.destination.isText = true := fun hd => h ⟨hs, hd⟩
    simp only [if_pos hs, if_neg hd]
    rfl
  · simp only [if_neg hs]
    rfl

end Walk

/-! ## Results -/

/-- What is said of the results of a dialogue holds of the result of a run. -/
theorem Dialogue.Stays.of_run_ok {may : (q : Query) → q.Answer → Prop} {P : Request → Prop}
    {Q : α → Prop} {d : Dialogue α} (hd : Stays may P Q d)
    (hmay : ∀ query answer, fs.Gives query answer → may query answer) {start finish : Run σ τ}
    {value : α} (hrun : d.run fs out start = (.ok value, finish)) : Q value := by
  induction hd generalizing start with
  | done h =>
      cases hrun
      exact h
  | fail failure => cases hrun
  | @call r next _ _ ih =>
      rw [run_call] at hrun
      rcases hr : Run.reply fs out r start with ⟨failure | answer, after⟩
      · rw [hr] at hrun
        cases hrun
      · rw [hr] at hrun
        -- Only the answers to queries are restricted, and they are all given by `fs`.
        have hpermitted : r.May may answer := by
          cases r with
          | emit | log | note | review => trivial
          | ask query =>
              have hanswer : (fs.answer query start.files).1 = .ok answer := congrArg Prod.fst hr
              exact hmay query answer ⟨_, _, Prod.ext hanswer rfl⟩
        exact ih answer hpermitted hrun

/-! ## The requests about a pair -/

/-- The requests that a walk makes for a pair that was classified. -/
inductive Request.About (pair : Pair) : Request → Prop
  | listSource : About pair (.ask (.list pair.source))
  | listDestination : About pair (.ask (.list pair.destination))
  | same : About pair (.ask (.same pair.source pair.destination))
  | remove (recursive : Bool) : About pair (.emit (.remove pair.destination recursive))
  | copy : About pair (.emit (.copy pair.source pair.destination))
  | mkdir : About pair (.emit (.mkdir pair.destination))
  | typeConflict (source destination : Kind) :
      About pair (.log (.typeConflict source destination pair.destination))
  | add : About pair (.note (.add pair.destination))
  | delete : About pair (.note (.delete pair.destination))
  | conflict : About pair (.note .conflict)

/-- The tasks that are left of a pair: the visits of its children, and the rest of its actions. -/
inductive Task.LeftOf (pair : Pair) : Task → Prop
  | visit (name : Name) (sourceGone destinationGone : Bool) :
      LeftOf pair (.visit (pair.child name) sourceGone destinationGone)
  | resume (source destination : Kind) (actions : List Action) :
      LeftOf pair (.resume pair source destination actions)

/-- The tasks that are left of a pair, with names for the children that may be listed. -/
inductive Task.ListedOf (may : (q : Query) → q.Answer → Prop) (rules : Rules) (pair : Pair) :
    Task → Prop
  | visit {name : Name} {source destination : Kind}
      (h : Listed may rules pair source destination name) (sourceGone destinationGone : Bool) :
      ListedOf may rules pair (.visit (pair.child name) sourceGone destinationGone)
  | resume (source destination : Kind) (actions : List Action) :
      ListedOf may rules pair (.resume pair source destination actions)

theorem Task.ListedOf.leftOf {may : (q : Query) → q.Answer → Prop} {pair : Pair} {t : Task}
    (h : ListedOf may rules pair t) : LeftOf pair t := by
  cases h with
  | visit => exact .visit _ _ _
  | resume => exact .resume _ _ _

open Dialogue

section
variable {may : (q : Query) → q.Answer → Prop}

theorem stays_entriesAt {pair : Pair} (kind : Kind) {path : Path}
    (h : Request.About pair (.ask (.list path))) :
    Stays may (Request.About pair) (fun names => ∀ name ∈ names,
      kind = .directory ∧ ∃ listing, may (.list path) listing ∧ name ∈ listing)
      (Walk.entriesAt kind path) := by
  unfold Walk.entriesAt
  split
  · next hdir =>
    exact (Stays.request h).mono (fun _ => id) fun names hmay name hname =>
      ⟨hdir, names, hmay, hname⟩
  · exact .done (List.forall_mem_nil _)

theorem stays_childNames (pair : Pair) (source destination : Kind) :
    Stays may (Request.About pair) (fun names => ∀ name ∈ names,
      Listed may rules pair source destination name)
      (Walk.childNames rules pair source destination) := by
  refine (stays_entriesAt source .listSource).bind fun inSource hs => ?_
  refine (stays_entriesAt destination .listDestination).bind fun inDestination hd => .done ?_
  intro name hname
  obtain ⟨hmem, hvisible⟩ := Walk.mem_visible.mp hname
  exact ⟨hvisible, (List.mem_append.mp hmem).imp (hs name) (hd name)⟩

/-- **What a pair comes to.** All requests are about its paths, and only children with names that
were listed are left to be visited. -/
theorem stays_perform (pair : Pair) (source destination : Kind) (actions : List Action) :
    Stays may (Request.About pair) (fun first => ∀ t ∈ first, Task.ListedOf may rules pair t)
      (Walk.perform rules pair source destination actions) := by
  induction actions with
  | nil => exact .done (List.forall_mem_nil _)
  | cons action rest ih =>
      cases action with
      | remove => exact (Stays.request (.remove _)).bind fun _ _ => ih
      | copy => exact (Stays.request .copy).bind fun _ _ => ih
      | mkdir => exact (Stays.request .mkdir).bind fun _ _ => ih
      | queueAdd => exact (Stays.request .add).bind fun _ _ => ih
      | queueDelete => exact (Stays.request .delete).bind fun _ _ => ih
      | flagConflict =>
          refine (Stays.request (.typeConflict _ _)).bind fun _ _ => ?_
          exact (Stays.request .conflict).bind fun _ _ => ih
      | copyIfDifferent =>
          refine (Stays.request .same).bind fun equal _ => ?_
          cases equal with
          | true => exact ih
          | false => exact (Stays.request .copy).bind fun _ _ => ih
      | recurse =>
          refine (stays_childNames pair source destination).bind fun names hnames => .done ?_
          intro t ht
          rcases List.mem_append.mp ht with hvisit | hresume
          · obtain ⟨name, hname, rfl⟩ := List.mem_map.mp hvisit
            exact .visit (hnames name hname) _ _
          · rw [List.mem_singleton.mp hresume]
            exact .resume source destination rest

end

theorem makes_perform (rules : Rules) (pair : Pair) (source destination : Kind)
    (actions : List Action) :
    Makes (Request.About pair) (fun first => ∀ t ∈ first, Task.LeftOf pair t)
      (Walk.perform rules pair source destination actions) :=
  (stays_perform pair source destination actions).mono (fun _ => id)
    fun _ hfirst t ht => (hfirst t ht).leftOf

end TreePlan

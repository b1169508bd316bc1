import TreePlan.Run
import TreePlan.Walk

/-!
# What a walk can say

A walk has no say in how it is carried out: it neither looks up its notes nor speaks to the
version control. That is a matter of the requests in its dialogue, whatever is replied to
them, so it is stated of the dialogue itself.

* `Dialogue.Stays` says of a dialogue that each of its requests is of one sort, as long as queries
  are answered in a certain way; `Makes` and `Only` are what it says whatever is answered;
* `Dialogue.Only.keeps` is how it is carried over to runs: what every reply to such a request keeps,
  a run keeps. What happens in a run, for one, is the reply to a request (`Dialogue.Only.events`);
* `stays_workOff` takes it from the tasks of a walk to the walk; `only_walk` says of a walk that its
  requests are `Request.OfWalk`.
-/

namespace TreePlan

/-- The requests of a walk: all but looking up the notes and commanding the version control. -/
def Request.OfWalk : Request → Prop
  | .emit command => command.isVersionControl = false
  | .review => False
  | .ask _ | .log _ | .note _ => True

/-- Whether something may be replied to a request. Only the answers to queries are restricted. -/
def Request.May (may : (q : Query) → q.Answer → Prop) : (r : Request) → r.Reply → Prop
  | .ask query, answer => may query answer
  | .emit _, _ | .log _, _ | .note _, _ | .review, _ => True

theorem Request.May.mono {may may' : (q : Query) → q.Answer → Prop}
    (hmay : ∀ query answer, may query answer → may' query answer) {r : Request} {reply : r.Reply}
    (h : r.May may reply) : r.May may' reply := by
  cases r with
  | ask query => exact hmay query reply h
  | emit | log | note | review => trivial

theorem Request.may_true {r : Request} (reply : r.Reply) : r.May (fun _ _ => True) reply := by
  cases r <;> trivial

namespace Dialogue

variable {σ τ α β : Type}

/-- As long as queries are answered as `may` permits, each request of a dialogue is one of those
that `P` holds of, and `Q` holds of any result. -/
inductive Stays (may : (q : Query) → q.Answer → Prop) (P : Request → Prop) (Q : α → Prop) :
    Dialogue α → Prop
  | done {value : α} (h : Q value) : Stays may P Q (.done value)
  | fail (failure : Failure) : Stays may P Q (.fail failure)
  | call {r : Request} {next : r.Reply → Dialogue α} (h : P r)
      (hnext : ∀ reply, r.May may reply → Stays may P Q (next reply)) : Stays may P Q (.call r next)

/-- What a dialogue keeps to whatever is answered. -/
abbrev Makes (P : Request → Prop) (Q : α → Prop) : Dialogue α → Prop := Stays (fun _ _ => True) P Q

abbrev Only (P : Request → Prop) : Dialogue α → Prop := Makes P fun _ => True

namespace Stays

variable {may may' : (q : Query) → q.Answer → Prop} {P P' : Request → Prop} {Q Q' : α → Prop}
  {R : β → Prop} {d : Dialogue α}

theorem request {r : Request} (h : P r) : Stays may P (r.May may) (request r) :=
  .call h fun _ => .done

theorem bind {f : α → Dialogue β} (hd : Stays may P Q d)
    (hf : ∀ value, Q value → Stays may P R (f value)) : Stays may P R (d >>= f) := by
  induction hd with
  | done h => exact hf _ h
  | fail failure => exact .fail failure
  | call h _ ih => exact .call h ih

theorem mono (hd : Stays may P Q d) (hP : ∀ r, P r → P' r) (hQ : ∀ value, Q value → Q' value) :
    Stays may P' Q' d := by
  induction hd with
  | done h => exact .done (hQ _ h)
  | fail failure => exact .fail failure
  | call h _ ih => exact .call (hP _ h) ih

/-- What is kept to under more answers is kept to under fewer. -/
theorem anti (hd : Stays may' P Q d) (hmay : ∀ query answer, may query answer → may' query answer) :
    Stays may P Q d := by
  induction hd with
  | done h => exact .done h
  | fail failure => exact .fail failure
  | call h _ ih => exact .call h fun reply hreply => ih reply (hreply.mono hmay)

end Stays

namespace Makes

variable {P : Request → Prop} {Q : α → Prop} {d : Dialogue α}

theorem only (hd : Makes P Q d) : Only P d := hd.mono (fun _ => id) fun _ _ => trivial

theorem stays (hd : Makes P Q d) (may : (q : Query) → q.Answer → Prop) : Stays may P Q d :=
  hd.anti fun _ _ _ => trivial

end Makes

namespace Only

variable {P : Request → Prop}

theorem request {r : Request} (h : P r) : Only P (request r) := .call h fun _ _ => .done trivial

theorem bind {d : Dialogue α} {f : α → Dialogue β} (hd : Only P d)
    (hf : ∀ value, Only P (f value)) : Only P (d >>= f) :=
  Stays.bind hd fun value _ => hf value

/-- **What every reply keeps, a run keeps**, wherever it ends. -/
theorem keeps {d : Dialogue α} (hd : Only P d) (I : Run σ τ → Prop) {fs : FileSystem σ}
    {out : Sink τ}
    (hreply : ∀ r, P r → ∀ run, I run → I (Run.reply fs out r run).2) {start : Run σ τ}
    (h : I start) : I (d.run fs out start).2 := by
  -- By the requests that are still to come; `start` is where the run has got to.
  induction hd generalizing start with
  | done | fail => exact h
  | @call r next hr _ ih =>
      have hafter := hreply r hr start h
      rw [run_call]
      -- The reply may be a failure: then the run ends, in a state that the reply has left.
      rcases hanswer : Run.reply fs out r start with ⟨failure | answer, after⟩
      · rw [hanswer] at hafter
        exact hafter
      · rw [hanswer] at hafter
        exact ih answer (Request.may_true answer) hafter

end Only

/-- Of a dialogue in general nothing is known of its requests. -/
theorem only_true (d : Dialogue α) : Only (fun _ => True) d := by
  induction d with
  | done value => exact .done trivial
  | fail failure => exact .fail failure
  | call r _ ih => exact .call trivial fun reply _ => ih reply

end Dialogue

/-! ## The events of a run -/

/-- The request that an event is the answer to. -/
def Event.request : Event → Request
  | .asked query => .ask query
  | .emitted command => .emit command
  | .logged record => .log record

section
variable {σ τ α : Type} {fs : FileSystem σ} {out : Sink τ} {run : Run σ τ}

theorem mem_filterMap_iff {β γ : Type} {f : β → Option γ} {g : γ → β} {items : List β} {c : γ}
    (h : ∀ item, f item = some c ↔ item = g c) : c ∈ items.filterMap f ↔ g c ∈ items := by
  simp only [List.mem_filterMap, h, exists_eq_right]

theorem mem_records_iff {record : LogRecord} :
    record ∈ run.records ↔ .logged record ∈ run.events.toList :=
  mem_filterMap_iff fun event => by cases event <;> simp

theorem mem_commands_iff {command : Command} :
    command ∈ run.commands ↔ .emitted command ∈ run.events.toList :=
  mem_filterMap_iff fun event => by cases event <;> simp

theorem mem_queries_iff {query : Query} :
    query ∈ run.queries ↔ .asked query ∈ run.events.toList :=
  mem_filterMap_iff fun event => by cases event <;> simp

/-- A reply adds at most its own event. -/
theorem Run.exists_events_reply (fs : FileSystem σ) (out : Sink τ) (r : Request) (start : Run σ τ) :
    ∃ new, (Run.reply fs out r start).2.events.toList = start.events.toList ++ new ∧
      ∀ event ∈ new, event.request = r := by
  cases r with
  | ask query => exact ⟨[.asked query], by simp [Run.reply], by simp [Event.request]⟩
  | emit command =>
      rw [Run.reply]
      rcases out.accept command start.sink with ⟨cause | ⟨⟩, sink⟩
      · -- a refused command leaves no event behind
        exact ⟨[], by simp, by simp⟩
      · exact ⟨[.emitted command], by simp, by simp [Event.request]⟩
  | log record =>
      exact ⟨[.logged record], by simp [Run.reply, Run.happened], by simp [Event.request]⟩
  | note | review => exact ⟨[], by simp [Run.reply], by simp⟩

end

namespace Dialogue

variable {σ τ α : Type} {P : Request → Prop} {d : Dialogue α}

namespace Only

/-- What a run adds to the events comes from the requests of its dialogue. -/
theorem events (hd : Only P d) (fs : FileSystem σ) (out : Sink τ) (start : Run σ τ) :
    ∀ event ∈ (d.run fs out start).2.events.toList,
      event ∈ start.events.toList ∨ P event.request := by
  refine hd.keeps
    (fun run => ∀ event ∈ run.events.toList, event ∈ start.events.toList ∨ P event.request)
    (fun r hr run h event hevent => ?_) (fun _ => .inl)
  obtain ⟨new, hnew, hrequest⟩ := Run.exists_events_reply fs out r run
  rw [hnew, List.mem_append] at hevent
  rcases hevent with hold | hadded
  · exact h event hold
  · exact .inr (hrequest event hadded ▸ hr)

/-- What a dialogue does not request was there before it. -/
theorem mem_start (hd : Only P d) {fs : FileSystem σ} {out : Sink τ} {start finish : Run σ τ}
    {result : Except Failure α} {event : Event} (hrun : d.run fs out start = (result, finish))
    (hmem : event ∈ finish.events.toList) (hnot : ¬ P event.request) :
    event ∈ start.events.toList := by
  have hevents := hd.events fs out start event
  rw [hrun] at hevents
  exact (hevents hmem).resolve_right hnot

/-- What a run of such a dialogue adds to the commands comes from such requests. -/
theorem commands (hd : Only P d) (fs : FileSystem σ) (out : Sink τ) (start : Run σ τ) :
    ∀ command ∈ (d.run fs out start).2.commands,
      command ∈ start.commands ∨ P (.emit command) := by
  intro command hcommand
  rw [mem_commands_iff] at hcommand ⊢
  exact hd.events fs out start _ hcommand

end Only

/-- What happened stays: a run only adds events. -/
theorem events_prefix_run (fs : FileSystem σ) (out : Sink τ) (d : Dialogue α) (start : Run σ τ) :
    start.events.toList <+: (d.run fs out start).2.events.toList := by
  refine d.only_true.keeps (fun run => start.events.toList <+: run.events.toList)
    (fun r _ run h => ?_) List.prefix_rfl
  obtain ⟨new, hnew, -⟩ := Run.exists_events_reply fs out r run
  rw [hnew]
  exact h.trans (List.prefix_append _ new)

end Dialogue

/-! ## The walk -/

open Dialogue

variable {rules : Rules} {may : (q : Query) → q.Answer → Prop} {P : Request → Prop}

theorem only_requireText (path : Path) : Only P (Walk.requireText path) := by
  unfold Walk.requireText
  split
  · exact .done trivial
  · exact .fail _

theorem only_kindAt (gone : Bool) {path : Path} (h : P (.ask (.classify path))) :
    Only P (Walk.kindAt gone path) := by
  cases gone with
  | true => exact .done trivial
  | false => exact .request h

theorem only_entriesAt (kind : Kind) {path : Path} (h : P (.ask (.list path))) :
    Only P (Walk.entriesAt kind path) := by
  unfold Walk.entriesAt
  split
  · exact .request h
  · exact .done trivial

theorem only_childNames {pair : Pair} (source destination : Kind)
    (hsource : P (.ask (.list pair.source))) (hdestination : P (.ask (.list pair.destination))) :
    Only P (Walk.childNames rules pair source destination) := by
  refine (only_entriesAt source hsource).bind fun _ => ?_
  exact (only_entriesAt destination hdestination).bind fun _ => .done trivial

/-- **An invariant of the work list.** If each task that satisfies it makes requests of one sort,
and leaves tasks that satisfy it, then all the work is of that sort. -/
theorem stays_workOff {T : Task → Prop}
    (hstep : ∀ t, T t → Stays may P (fun first => ∀ t ∈ first, T t) (Walk.step rules t))
    (budget : Nat) {tasks : List Task} (h : ∀ t ∈ tasks, T t) :
    Stays may P (fun _ => True) (Walk.workOff rules budget tasks) := by
  -- The budget counts the steps; each leaves tasks of the same sort in front of the rest.
  induction budget generalizing tasks with
  | zero =>
      cases tasks with
      | nil => exact .done trivial
      | cons => exact .fail _
  | succ budget ih =>
      cases tasks with
      | nil => exact .done trivial
      | cons t rest =>
          obtain ⟨hhere, hrest⟩ := List.forall_mem_cons.mp h
          refine (hstep t hhere).bind fun first hfirst => ih ?_
          exact List.forall_mem_append.mpr ⟨hfirst, hrest⟩

theorem only_perform (pair : Pair) (source destination : Kind) (actions : List Action) :
    Only Request.OfWalk (Walk.perform rules pair source destination actions) := by
  have hemit : ∀ command : Command, command.isVersionControl = false →
      Only Request.OfWalk (emit command) := fun _ hcommand => .request hcommand
  induction actions with
  | nil => exact .done trivial
  | cons action rest ih =>
      cases action with
      | remove | copy | mkdir => exact (hemit _ rfl).bind fun _ => ih
      | queueAdd | queueDelete => exact Only.bind (.request trivial) fun _ => ih
      | flagConflict =>
          exact Only.bind (.request trivial) fun _ => Only.bind (.request trivial) fun _ => ih
      | copyIfDifferent =>
          refine Only.bind (.request trivial) fun equal => ?_
          cases equal with
          | true => exact ih
          | false => exact (hemit _ rfl).bind fun _ => ih
      | recurse => exact (only_childNames _ _ trivial trivial).bind fun _ => .done trivial

theorem only_step (t : Task) : Only Request.OfWalk (Walk.step rules t) := by
  cases t with
  | resume pair source destination actions => exact only_perform pair source destination actions
  | visit pair sourceGone destinationGone =>
      refine (only_requireText _).bind fun _ => (only_requireText _).bind fun _ => ?_
      refine (only_kindAt _ trivial).bind fun source => ?_
      refine (only_kindAt _ trivial).bind fun destination => ?_
      exact Only.bind (.request trivial) fun _ => only_perform pair source destination _

/-- A walk makes no request but those of a walk. -/
theorem only_walk (budget : Nat) (pair : Pair) : Only Request.OfWalk (walk rules budget pair) := by
  -- Nothing need be known of a task.
  have hstep : ∀ t, True →
      Makes Request.OfWalk (fun first => ∀ t ∈ first, True) (Walk.step rules t) :=
    fun t _ => (only_step t).mono (fun _ => id) fun _ _ _ _ => trivial
  exact stays_workOff hstep budget fun _ _ => trivial

end TreePlan

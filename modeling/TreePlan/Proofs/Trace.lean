import TreePlan.Proofs.Conclusion
import TreePlan.Proofs.Requests

/-!
# Traces

The trace of a conversation is the list of its requests so far, in the order in which they were
made and granted. What holds of the traces of a dialogue holds at every moment of every run,
whether the run gets any further or not (`exists_reaches`).

* `Dialogue.Reaches may d trace rest`: after the requests of `trace`, each replied to as `may`
  permits, `rest` is what is left of `d`.
* `reaches_bind` takes apart the traces of one dialogue after another.
* `Tells` is what a trace leaves behind in a run.
-/

namespace TreePlan

/-- The answers that a file system may give, in whatever state it is. -/
def FileSystem.Gives {σ : Type} (fs : FileSystem σ) (q : Query) (answer : q.Answer) : Prop :=
  ∃ files after, fs.answer q files = (.ok answer, after)

/-! ## What a trace leaves behind -/

namespace Request

def added? : Request → Option Path
  | .note (.add path) => some path
  | _ => none

def deleted? : Request → Option Path
  | .note (.delete path) => some path
  | _ => none

def record? : Request → Option LogRecord
  | .log record => some record
  | _ => none

end Request

/-- Between two states of a run the requests of `trace` were granted, and nothing else was put
into the session or into the log. -/
structure Tells {σ τ : Type} (trace : List Request) (start finish : Run σ τ) : Prop where
  adds : finish.session.adds.toList = start.session.adds.toList ++ trace.filterMap Request.added?
  deletes : finish.session.deletes.toList =
    start.session.deletes.toList ++ trace.filterMap Request.deleted?
  conflict : finish.session.conflict = true ↔ start.session.conflict = true ∨ .note .conflict ∈ trace
  records : finish.records = start.records ++ trace.filterMap Request.record?

namespace Tells

variable {σ τ : Type} {start mid finish : Run σ τ} {xs ys : List Request}

theorem refl (start : Run σ τ) : Tells [] start start := ⟨by simp, by simp, by simp, by simp⟩

theorem trans (hx : Tells xs start mid) (hy : Tells ys mid finish) :
    Tells (xs ++ ys) start finish where
  adds := by rw [hy.adds, hx.adds, List.filterMap_append, List.append_assoc]
  deletes := by rw [hy.deletes, hx.deletes, List.filterMap_append, List.append_assoc]
  conflict := by rw [hy.conflict, hx.conflict, List.mem_append, or_assoc]
  records := by rw [hy.records, hx.records, List.filterMap_append, List.append_assoc]

/-- A granted request leaves itself behind. -/
theorem reply (fs : FileSystem σ) (out : Sink τ) {r : Request} {answer : r.Reply}
    (h : Run.reply fs out r start = (.ok answer, finish)) : Tells [r] start finish := by
  cases r with
  | ask query =>
      obtain rfl : (Run.reply fs out (.ask query) start).2 = finish := by rw [h]
      constructor <;>
        simp [Run.reply, Run.records, Request.added?, Request.deleted?, Request.record?]
  | emit command =>
      rw [Run.reply] at h
      rcases haccept : out.accept command start.sink with ⟨_ | ⟨⟩, sink⟩
      · -- a refusal is no answer
        rw [haccept] at h
        cases h
      · rw [haccept] at h
        cases h
        constructor <;>
          simp [Session.countEmitted, Run.records, Request.added?, Request.deleted?,
            Request.record?]
  | log record =>
      cases h
      constructor <;>
        simp [Run.happened, Run.records, Request.added?, Request.deleted?, Request.record?]
  | note n =>
      cases h
      cases n <;>
        constructor <;>
          simp [Session.note, Run.records, Request.added?, Request.deleted?, Request.record?]
  | review =>
      cases h
      constructor <;> simp [Request.added?, Request.deleted?, Request.record?]

/-- A request that is not granted leaves nothing behind. -/
theorem reply_error (fs : FileSystem σ) (out : Sink τ) {r : Request} {failure : Failure}
    (h : Run.reply fs out r start = (.error failure, finish)) : Tells [] start finish := by
  cases r with
  | ask query =>
      obtain rfl : (Run.reply fs out (.ask query) start).2 = finish := by rw [h]
      constructor <;> simp [Run.reply, Run.records]
  | emit command =>
      rw [Run.reply] at h
      rcases haccept : out.accept command start.sink with ⟨_ | ⟨⟩, sink⟩
      · -- a refusal leaves nothing behind
        rw [haccept] at h
        cases h
        constructor <;> simp [Run.records]
      · -- what is accepted is no failure
        rw [haccept] at h
        cases h
  | log | note | review => cases h

end Tells

namespace Dialogue

variable {σ τ α β : Type} {may : (q : Query) → q.Answer → Prop}

/-! ## The traces of a dialogue -/

/-- After the requests of `trace`, each replied to as `may` permits, `rest` is left of a
dialogue. -/
inductive Reaches (may : (q : Query) → q.Answer → Prop) :
    Dialogue α → List Request → Dialogue α → Prop
  | here (d : Dialogue α) : Reaches may d [] d
  | call {r : Request} {next : r.Reply → Dialogue α} {reply : r.Reply} {trace : List Request}
      {rest : Dialogue α} (h : r.May may reply) (hnext : Reaches may (next reply) trace rest) :
      Reaches may (.call r next) (r :: trace) rest

def IsDone (d : Dialogue α) : Prop := ∃ value, d = .done value

theorem not_isDone_fail (failure : Failure) : ¬ (Dialogue.fail failure : Dialogue α).IsDone := nofun

theorem not_isDone_call {r : Request} (next : r.Reply → Dialogue α) :
    ¬ (Dialogue.call r next).IsDone := nofun

theorem reaches_done {value : α} {trace : List Request} {rest : Dialogue α}
    (h : Reaches may (.done value) trace rest) : trace = [] ∧ rest = .done value := by
  cases h
  exact ⟨rfl, rfl⟩

theorem reaches_fail {failure : Failure} {trace : List Request} {rest : Dialogue α}
    (h : Reaches may (.fail failure) trace rest) : trace = [] ∧ rest = .fail failure := by
  cases h
  exact ⟨rfl, rfl⟩

/-- A trace of one dialogue after another ends within the first one or goes through it. -/
theorem reaches_bind {d : Dialogue α} {f : α → Dialogue β} {trace : List Request}
    {rest : Dialogue β} (h : Reaches may (d >>= f) trace rest) :
    (¬ rest.IsDone ∧ ∃ left, Reaches may d trace left) ∨
      ∃ value xs ys, trace = xs ++ ys ∧ Reaches may d xs (.done value) ∧
        Reaches may (f value) ys rest := by
  induction d generalizing trace with
  | done value => exact .inr ⟨value, [], trace, rfl, .here _, h⟩
  | fail failure =>
      obtain ⟨rfl, rfl⟩ := reaches_fail h
      exact .inl ⟨not_isDone_fail failure, _, .here _⟩
  | call r next ih =>
      cases h with
      | here => exact .inl ⟨not_isDone_call _, _, .here _⟩  -- broken off before anything was said
      | @call _ _ reply trace _ hmay hnext =>
          rcases ih reply hnext with ⟨hrest, left, hleft⟩ | ⟨value, xs, ys, rfl, hd, hf⟩
          · exact .inl ⟨hrest, left, .call hmay hleft⟩
          · exact .inr ⟨value, r :: xs, ys, rfl, .call hmay hd, hf⟩

/-- A single request is made or not. -/
theorem reaches_request {r : Request} {trace : List Request} {rest : Dialogue r.Reply}
    (h : Reaches may (request r) trace rest) :
    (trace = [] ∧ ¬ rest.IsDone) ∨ ∃ reply, r.May may reply ∧ trace = [r] ∧ rest = .done reply := by
  cases h with
  | here => exact .inl ⟨rfl, not_isDone_call _⟩
  | call hmay hnext =>
      obtain ⟨rfl, rfl⟩ := reaches_done hnext
      exact .inr ⟨_, hmay, rfl, rfl⟩

theorem reaches_request_done {r : Request} {trace : List Request} {reply : r.Reply}
    (h : Reaches may (request r) trace (.done reply)) : trace = [r] ∧ r.May may reply := by
  rcases reaches_request h with ⟨-, hrest⟩ | ⟨other, hmay, htrace, hrest⟩
  · exact absurd ⟨reply, rfl⟩ hrest
  · cases hrest
    exact ⟨htrace, hmay⟩

/-- The requests of a trace are requests of the dialogue. -/
theorem Only.of_reaches {P : Request → Prop} {d rest : Dialogue α} {trace : List Request}
    (hd : Only P d) (h : Reaches may d trace rest) : ∀ r ∈ trace, P r := by
  induction h with
  | here => exact fun _ hr => absurd hr List.not_mem_nil
  | call _ _ ih =>
      cases hd with
      | call hr hnext => exact List.forall_mem_cons.mpr ⟨hr, ih (hnext _ (Request.may_true _))⟩

/-- What is broken off for want of budget has no other traces than the whole. -/
theorem CutOf.reaches {d whole rest : Dialogue α} {trace : List Request} (hcut : CutOf d whole)
    (h : Reaches may d trace rest) :
    ∃ left, Reaches may whole trace left ∧ (rest.IsDone → left.IsDone) := by
  induction h generalizing whole with
  | here d =>
      refine ⟨whole, .here whole, ?_⟩
      rintro ⟨value, rfl⟩
      cases hcut
      exact ⟨value, rfl⟩
  | call hmay _ ih =>
      cases hcut with
      | call _ hnext =>
          obtain ⟨left, hleft, hdone⟩ := ih (hnext _)
          exact ⟨left, .call hmay hleft, hdone⟩

/-! ## The trace of a run -/

/-- **Every run has a trace.** It tells what the run leaves behind, and goes through the whole
dialogue if the run gets a result. -/
theorem exists_reaches (fs : FileSystem σ) (out : Sink τ) (d : Dialogue α) (start : Run σ τ) :
    ∃ trace rest, Reaches fs.Gives d trace rest ∧ Tells trace start (d.run fs out start).2 ∧
      ((d.run fs out start).1.isOk = true → rest.IsDone) := by
  induction d generalizing start with
  | done value => exact ⟨[], _, .here _, .refl start, fun _ => ⟨value, rfl⟩⟩
  | fail failure => exact ⟨[], _, .here _, .refl start, nofun⟩
  | call r next ih =>
      rw [run_call]
      rcases hr : Run.reply fs out r start with ⟨failure | answer, after⟩
      · -- the request is not granted
        exact ⟨[], _, .here _, .reply_error fs out hr, nofun⟩
      · have hmay : r.May fs.Gives answer := by
          cases r with
          | ask query =>
              have hanswer : (fs.answer query start.files).1 = .ok answer := congrArg Prod.fst hr
              exact ⟨start.files, _, Prod.ext hanswer rfl⟩
          | emit | log | note | review => trivial
        obtain ⟨trace, rest, hreaches, htells, hdone⟩ := ih answer after
        exact ⟨r :: trace, rest, .call hmay hreaches, (Tells.reply fs out hr).trans htells, hdone⟩

end Dialogue

end TreePlan

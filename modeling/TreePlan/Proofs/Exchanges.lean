import Mathlib.Data.List.Forall2
import TreePlan.Proofs.Trace

/-!
# Exchanges

What is said in a run is a list of exchanges: every request with what was replied to it, a failure
that ended the run included. It tells more than the events that the run keeps
(`Dialogue.events_run_exchanges`), for it has the answers.

An account of a dialogue has one entry for each exchange. `Dialogue.Accounts` says of a dialogue
that, whatever is replied to it, there is an account in which each entry is justified by those
before it; `Accounts.exists_account` carries this over to every run, wherever it ends.
-/

namespace TreePlan

variable {σ τ α β : Type} {fs : FileSystem σ} {out : Sink τ}

structure Exchange where
  request : Request
  result : Except Failure request.Reply

/-- What a run keeps of an exchange. A command that was refused did not happen. -/
def Exchange.event? : Exchange → Option Event
  | ⟨.ask query, _⟩ => some (.asked query)
  | ⟨.emit command, .ok _⟩ => some (.emitted command)
  | ⟨.log record, _⟩ => some (.logged record)
  | ⟨.emit _, .error _⟩ | ⟨.note _, _⟩ | ⟨.review, _⟩ => none

namespace Dialogue

/-! ## The exchanges of a run -/

def exchanges (fs : FileSystem σ) (out : Sink τ) : Dialogue α → Run σ τ → List Exchange
  | .done _, _ | .fail _, _ => []
  | .call r next, start =>
    ⟨r, (Run.reply fs out r start).1⟩ ::
      match Run.reply fs out r start with
      | (.ok answer, after) => (next answer).exchanges fs out after
      | (.error _, _) => []

theorem exchanges_call (r : Request) (next : r.Reply → Dialogue α) (start : Run σ τ) :
    (Dialogue.call r next).exchanges fs out start =
      ⟨r, (Run.reply fs out r start).1⟩ ::
        match Run.reply fs out r start with
        | (.ok answer, after) => (next answer).exchanges fs out after
        | (.error _, _) => [] := by
  rw [exchanges]

theorem events_reply (fs : FileSystem σ) (out : Sink τ) (r : Request) (start : Run σ τ) :
    (Run.reply fs out r start).2.events.toList = start.events.toList ++
      (Exchange.event? ⟨r, (Run.reply fs out r start).1⟩).toList := by
  cases r with
  | ask | log | note | review => simp [Run.reply, Run.happened, Exchange.event?]
  | emit command =>
      simp only [Run.reply]
      rcases out.accept command start.sink with ⟨cause | ⟨⟩, sink⟩
      · simp [Exchange.event?]
      · simp [Exchange.event?]

/-- **The events of a run are kept of its exchanges.** -/
theorem events_run_exchanges (d : Dialogue α) (start : Run σ τ) :
    (d.run fs out start).2.events.toList =
      start.events.toList ++ (d.exchanges fs out start).filterMap Exchange.event? := by
  induction d generalizing start with
  | done | fail => simp [exchanges]
  | call r next ih =>
      have hreply := events_reply fs out r start
      rw [run_call, exchanges_call, List.filterMap_cons]
      rcases hr : Run.reply fs out r start with ⟨failure | answer, after⟩
      · rw [hr] at hreply
        cases h : Exchange.event? ⟨r, .error failure⟩ <;> simp_all
      · rw [hr] at hreply
        cases h : Exchange.event? ⟨r, .ok answer⟩ <;> simp_all

/-- What was answered is what the file system gives. -/
theorem gives_of_mem_exchanges {d : Dialogue α} {start : Run σ τ} {query : Query}
    {answer : query.Answer} (h : ⟨.ask query, .ok answer⟩ ∈ d.exchanges fs out start) :
    fs.Gives query answer := by
  induction d generalizing start with
  | done | fail => exact absurd h List.not_mem_nil
  | call r next ih =>
      rw [exchanges_call, List.mem_cons] at h
      rcases h with heq | h
      · -- it is the first exchange
        obtain ⟨hrequest, hresult⟩ := Exchange.mk.inj heq
        subst hrequest
        exact ⟨start.files, _, Prod.ext (eq_of_heq hresult).symm rfl⟩
      · -- it is one of the others
        rcases hr : Run.reply fs out r start with ⟨failure | reply, after⟩
        · rw [hr] at h
          exact absurd h List.not_mem_nil
        · rw [hr] at h
          exact ih reply h

/-! ## Accounts -/

section
variable {ε : Type} {Of : ε → Exchange → Prop} {Justified : List ε → ε → Prop}
  {Q R : List ε → α → Prop} {past : List ε}

/-- After the entries `past`, whatever is replied, there is an entry for each exchange of a dialogue
that is justified by the entries before it, and where the dialogue gets a result, `Q` holds of it
and of the account. -/
inductive Accounts (Of : ε → Exchange → Prop) (Justified : List ε → ε → Prop)
    (Q : List ε → α → Prop) : List ε → Dialogue α → Prop
  | done {past : List ε} {value : α} (h : Q past value) : Accounts Of Justified Q past (.done value)
  | fail {past : List ε} (failure : Failure) : Accounts Of Justified Q past (.fail failure)
  | call {past : List ε} {r : Request} {next : r.Reply → Dialogue α}
      (entry : Except Failure r.Reply → ε) (hof : ∀ result, Of (entry result) ⟨r, result⟩)
      (hjustified : ∀ result, Justified past (entry result))
      (hnext : ∀ reply, Accounts Of Justified Q (past ++ [entry (.ok reply)]) (next reply)) :
      Accounts Of Justified Q past (.call r next)

namespace Accounts

theorem request {r : Request} {Q : List ε → r.Reply → Prop} (entry : Except Failure r.Reply → ε)
    (hof : ∀ result, Of (entry result) ⟨r, result⟩)
    (hjustified : ∀ result, Justified past (entry result))
    (h : ∀ reply, Q (past ++ [entry (.ok reply)]) reply) :
    Accounts Of Justified Q past (request r) :=
  .call entry hof hjustified fun reply => .done (h reply)

theorem bind {d : Dialogue α} {f : α → Dialogue β} {R : List ε → β → Prop}
    (hd : Accounts Of Justified Q past d)
    (hf : ∀ after value, Q after value → Accounts Of Justified R after (f value)) :
    Accounts Of Justified R past (d >>= f) := by
  induction hd with
  | done h => exact hf _ _ h
  | fail failure => exact .fail failure
  | call entry hof hjustified _ ih => exact .call entry hof hjustified ih

theorem mono {d : Dialogue α} (hd : Accounts Of Justified Q past d)
    (h : ∀ after value, Q after value → R after value) : Accounts Of Justified R past d := by
  rw [← bind_done d]
  exact hd.bind fun after value hQ => .done (h after value hQ)

/-- What is broken off for want of budget needs no other account. -/
theorem of_cutOf {d whole : Dialogue α} (h : Accounts Of Justified Q past whole)
    (hcut : CutOf d whole) : Accounts Of Justified Q past d := by
  induction h generalizing d with
  | done h =>
      cases hcut with
      | cut => exact .fail _  -- a cut ends as a failure does
      | done => exact .done h
  | fail failure =>
      cases hcut with
      | cut | fail => exact .fail _
  | call entry hof hjustified _ ih =>
      cases hcut with
      | cut => exact .fail _
      | call _ hnext => exact .call entry hof hjustified fun reply => ih reply (hnext reply)

/-- **Every run has an account**: one entry for each exchange, each justified by those before. -/
theorem exists_account {d : Dialogue α} (h : Accounts Of Justified Q past d) (fs : FileSystem σ)
    (out : Sink τ) (start : Run σ τ) :
    ∃ account, List.Forall₂ Of account (d.exchanges fs out start) ∧
      ∀ front entry rest, account = front ++ entry :: rest → Justified (past ++ front) entry := by
  induction h generalizing start with
  | done | fail => exact ⟨[], .nil, by simp⟩
  | @call past r next entry hof hjustified _ ih =>
      -- The entry of this exchange comes first, and the others are justified with it.
      have hcons : ∀ {result : Except Failure r.Reply} {account : List ε},
          (∀ front e rest, account = front ++ e :: rest →
            Justified (past ++ [entry result] ++ front) e) →
          ∀ front e rest, entry result :: account = front ++ e :: rest →
            Justified (past ++ front) e := by
        intro result account haccount front e rest heq
        cases front with
        | nil =>
            rw [List.nil_append, List.cons.injEq] at heq
            rw [List.append_nil, ← heq.1]
            exact hjustified result
        | cons first front =>
            rw [List.cons_append, List.cons.injEq] at heq
            have hrest := haccount front e rest heq.2
            rwa [List.append_assoc, List.singleton_append, heq.1] at hrest
      rw [exchanges_call]
      rcases Run.reply fs out r start with ⟨failure | answer, after⟩
      · exact ⟨[entry (.error failure)], .cons (hof _) .nil, hcons (by simp)⟩
      · obtain ⟨account, hall, haccount⟩ := ih answer after
        exact ⟨entry (.ok answer) :: account, .cons (hof _) hall, hcons haccount⟩

end Accounts

end

end Dialogue

end TreePlan

import TreePlan.Proofs.Conclusion
import TreePlan.Proofs.Requests

/-!
# Two runs side by side

What is said of two runs, of one dialogue with two file systems or of two dialogues with one, is
shown by going through both of them in step.

* `Dialogue.Only.run_related`: one dialogue ends in the same way with partners that reply alike.
  `run_view` is the case in which the states of one are a view of those of the other, as with
  partners that are watched.

Two dialogues need not make the same requests. A `Coupling` says what has to hold between the two
file systems and between the two histories; sinks and sessions have to be equal.

* `Alike` says that two dialogues end in the same way, in coupled states.
* `Alike.bind` takes two dialogues apart into their parts.
* `alike_of_only`: one dialogue ends alike with both file systems if they give the same answers to
  its queries.
-/

namespace TreePlan

/-! ## Partners that reply alike -/

namespace Dialogue.Only

variable {σ₁ σ₂ τ₁ τ₂ α : Type} {fs₁ : FileSystem σ₁} {fs₂ : FileSystem σ₂} {out₁ : Sink τ₁}
  {out₂ : Sink τ₂} {P : Request → Prop} {d : Dialogue α}

/-- **No dialogue tells apart partners that reply alike.** If to each of its requests both partners
give the same reply in related states, and leave related states behind, then it ends in the same
way with both, in related states. -/
theorem run_related (hd : Only P d) (R : Run σ₁ τ₁ → Run σ₂ τ₂ → Prop)
    (hreply : ∀ r, P r → ∀ one two, R one two →
      (Run.reply fs₁ out₁ r one).1 = (Run.reply fs₂ out₂ r two).1 ∧
        R (Run.reply fs₁ out₁ r one).2 (Run.reply fs₂ out₂ r two).2)
    {one : Run σ₁ τ₁} {two : Run σ₂ τ₂} (h : R one two) :
    d.concludes fs₁ out₁ one = d.concludes fs₂ out₂ two ∧
      (d.run fs₁ out₁ one).1 = (d.run fs₂ out₂ two).1 ∧
        R (d.run fs₁ out₁ one).2 (d.run fs₂ out₂ two).2 := by
  induction hd generalizing one two with
  | done | fail => exact ⟨rfl, rfl, h⟩
  | @call r next hr _ ih =>
      obtain ⟨hanswer, hstates⟩ := hreply r hr one two h
      rw [concludes_call, concludes_call, run_call, run_call]
      rcases hone : Run.reply fs₁ out₁ r one with ⟨failure | answer, after⟩
      all_goals
        rcases htwo : Run.reply fs₂ out₂ r two with ⟨failure' | answer', after'⟩
        all_goals
          rw [hone, htwo] at hanswer hstates
          -- Of the four cases the two remain in which the replies are of one sort.
          cases hanswer
      · -- the same failure ends both
        exact ⟨rfl, rfl, hstates⟩
      · -- both go on with the same answer
        exact ih answer (Request.may_true answer) hstates

/-- The same where the states of one partner are seen in those of the other. -/
theorem run_view (hd : Only P d) (view : Run σ₁ τ₁ → Run σ₂ τ₂)
    (hreply : ∀ r, P r → ∀ start, Run.reply fs₂ out₂ r (view start) =
      ((Run.reply fs₁ out₁ r start).1, view (Run.reply fs₁ out₁ r start).2))
    (start : Run σ₁ τ₁) :
    d.run fs₂ out₂ (view start) =
        ((d.run fs₁ out₁ start).1, view (d.run fs₁ out₁ start).2) ∧
      d.concludes fs₂ out₂ (view start) = d.concludes fs₁ out₁ start := by
  have hstep : ∀ r, P r → ∀ one two, view one = two →
      (Run.reply fs₁ out₁ r one).1 = (Run.reply fs₂ out₂ r two).1 ∧
        view (Run.reply fs₁ out₁ r one).2 = (Run.reply fs₂ out₂ r two).2 := by
    rintro r hr one _ rfl
    rw [hreply r hr one]
    exact ⟨rfl, rfl⟩
  obtain ⟨hconcludes, hresult, hstates⟩ :=
    hd.run_related (fun one two => view one = two) hstep rfl
  exact ⟨Prod.ext hresult.symm hstates.symm, hconcludes.symm⟩

end Dialogue.Only

/-! ## Coupled runs -/

variable {σ₁ σ₂ τ α β : Type} {fs₁ : FileSystem σ₁} {fs₂ : FileSystem σ₂} {out : Sink τ}

/-- What has to hold between two file systems and between what happened in two runs. It goes on to
hold when the same happens in both. -/
structure Coupling (σ₁ σ₂ : Type) where
  files : σ₁ → σ₂ → Prop
  events : List Event → List Event → Prop
  push : ∀ {xs ys : List Event} (event : Event), events xs ys →
    events (xs ++ [event]) (ys ++ [event])

namespace Coupling

variable (c : Coupling σ₁ σ₂)

structure Holds (one : Run σ₁ τ) (two : Run σ₂ τ) : Prop where
  files : c.files one.files two.files
  sink : one.sink = two.sink
  session : one.session = two.session
  events : c.events one.events.toList two.events.toList

/-- Coupled file systems answer the query alike, and stay coupled. -/
def Answers (fs₁ : FileSystem σ₁) (fs₂ : FileSystem σ₂) (query : Query) : Prop :=
  ∀ one two, c.files one two → (fs₁.answer query one).1 = (fs₂.answer query two).1 ∧
    c.files (fs₁.answer query one).2 (fs₂.answer query two).2

variable {c} {one : Run σ₁ τ} {two : Run σ₂ τ}

theorem Holds.happened (h : c.Holds one two) (event : Event) :
    c.Holds (one.happened event) (two.happened event) where
  files := h.files
  sink := h.sink
  session := h.session
  events := by
    simp only [Run.happened, Array.toList_push]
    exact c.push event h.events

/-- A query is part of what happened, whatever the answer is. -/
theorem Holds.asked (out : Sink τ) (h : c.Holds one two) (query : Query)
    (hfiles : c.files (fs₁.answer query one.files).2 (fs₂.answer query two.files).2) :
    c.Holds (Run.reply fs₁ out (.ask query) one).2 (Run.reply fs₂ out (.ask query) two).2 where
  files := hfiles
  sink := h.sink
  session := h.session
  events := by
    simp only [Run.reply, Array.toList_push]
    exact c.push _ h.events

/-- Coupled runs reply alike, and stay coupled. -/
theorem Holds.reply {r : Request} (hask : ∀ query, r = .ask query → c.Answers fs₁ fs₂ query)
    (h : c.Holds one two) :
    (Run.reply fs₁ out r one).1 = (Run.reply fs₂ out r two).1 ∧
      c.Holds (Run.reply fs₁ out r one).2 (Run.reply fs₂ out r two).2 := by
  cases r with
  | ask query =>
      obtain ⟨hanswer, hfiles⟩ := hask query rfl _ _ h.files
      exact ⟨hanswer, h.asked out query hfiles⟩
  | emit command =>
      simp only [Run.reply, h.sink]
      rcases out.accept command two.sink with ⟨cause | ⟨⟩, sink⟩
      · -- refused on both sides, for the same reason
        exact ⟨rfl, h.files, rfl, h.session, h.events⟩
      · have hemitted := h.happened (.emitted command)
        exact ⟨rfl, h.files, rfl, congrArg Session.countEmitted h.session, hemitted.events⟩
  | log record => exact ⟨rfl, h.happened _⟩
  | note n => exact ⟨rfl, h.files, h.sink, congrArg (Session.note · n) h.session, h.events⟩
  | review => exact ⟨congrArg Except.ok h.session, h⟩

end Coupling

/-! ## Dialogues that end alike -/

section
variable (c : Coupling σ₁ σ₂) (fs₁ : FileSystem σ₁) (fs₂ : FileSystem σ₂) (out : Sink τ)

/-- Two dialogues end with the same result or the same failure, in coupled states, and neither is
cut short unless both are. -/
structure Alike (d e : Dialogue α) (one : Run σ₁ τ) (two : Run σ₂ τ) : Prop where
  concludes : d.concludes fs₁ out one = e.concludes fs₂ out two
  result : (d.run fs₁ out one).1 = (e.run fs₂ out two).1
  states : c.Holds (d.run fs₁ out one).2 (e.run fs₂ out two).2

end

section
open Dialogue
variable {c : Coupling σ₁ σ₂} {one : Run σ₁ τ} {two : Run σ₂ τ}

theorem alike_done (value : α) (h : c.Holds one two) :
    Alike c fs₁ fs₂ out (.done value) (.done value) one two := ⟨rfl, rfl, h⟩

theorem alike_fail (failure : Failure) (h : c.Holds one two) :
    Alike c fs₁ fs₂ out (.fail failure : Dialogue α) (.fail failure) one two := ⟨rfl, rfl, h⟩

/-- One dialogue after another ends alike if the first ones do, and what follows does from there. -/
theorem Alike.bind {d e : Dialogue α} {f g : α → Dialogue β} (h : Alike c fs₁ fs₂ out d e one two)
    (hnext : ∀ value one' two', d.run fs₁ out one = (.ok value, one') →
      e.run fs₂ out two = (.ok value, two') → c.Holds one' two' →
        Alike c fs₁ fs₂ out (f value) (g value) one' two') :
    Alike c fs₁ fs₂ out (d >>= f) (e >>= g) one two := by
  obtain ⟨hconcludes, hresult, hstates⟩ := h
  rcases hd : d.run fs₁ out one with ⟨failure | value, one'⟩
  all_goals
    rcases he : e.run fs₂ out two with ⟨failure' | value', two'⟩
    all_goals
      rw [hd, he] at hresult hstates
      cases hresult
  · -- both failed, and alike
    constructor
    · rw [concludes_bind, concludes_bind, hd, he]
      exact hconcludes
    · rw [run_bind, run_bind, hd, he]
    · rw [run_bind, run_bind, hd, he]
      exact hstates
  · -- both go on with the same value
    obtain ⟨hrest, hanswer, hafter⟩ := hnext value one' two' hd he hstates
    constructor
    · rw [concludes_bind, concludes_bind, hd, he]
      exact hrest
    · rw [run_bind, run_bind, hd, he]
      exact hanswer
    · rw [run_bind, run_bind, hd, he]
      exact hafter

theorem concludes_request {σ : Type} (fs : FileSystem σ) (r : Request) (start : Run σ τ) :
    (request r).concludes fs out start = true := by
  rw [request, concludes_call]
  rcases Run.reply fs out r start with ⟨_ | _, _⟩ <;> rfl

theorem alike_request {r : Request} (hask : ∀ query, r = .ask query → c.Answers fs₁ fs₂ query)
    (h : c.Holds one two) : Alike c fs₁ fs₂ out (request r) (request r) one two where
  concludes := by rw [concludes_request, concludes_request]
  result := by
    rw [run_request, run_request]
    exact (h.reply hask).1
  states := by
    rw [run_request, run_request]
    exact (h.reply hask).2

theorem alike_log (record : LogRecord) (h : c.Holds one two) :
    Alike c fs₁ fs₂ out (log record) (log record) one two := by
  apply alike_request _ h
  intro query hquery
  cases hquery

/-- **One dialogue with two file systems.** It ends alike if the file systems give the same answers
to the queries that the dialogue makes. -/
theorem alike_of_only {P : Request → Prop} {d : Dialogue α} (hd : Only P d)
    (hP : ∀ query, P (.ask query) → c.Answers fs₁ fs₂ query) (h : c.Holds one two) :
    Alike c fs₁ fs₂ out d d one two := by
  have hreply : ∀ r, P r → ∀ one two, c.Holds one two →
      (Run.reply fs₁ out r one).1 = (Run.reply fs₂ out r two).1 ∧
        c.Holds (Run.reply fs₁ out r one).2 (Run.reply fs₂ out r two).2 :=
    fun r hr one two hstates => hstates.reply fun query hquery => hP query (hquery ▸ hr)
  obtain ⟨hconcludes, hresult, hstates⟩ := hd.run_related c.Holds hreply h
  exact ⟨hconcludes, hresult, hstates⟩

end

end TreePlan

import TreePlan.Run

/-!
# Runs that come to an end of their own

A walk has a budget of steps, and where the budget is used up it breaks off with
`Failure.exhausted`. Nothing a walk is *for* depends on its budget, so the statements about
walks speak of the runs that the budget does not cut short:

* `Dialogue.concludes` tells whether a run ends as its dialogue says, with a result or with
  a failure of the dialogue, of the file system or of the sink;
* `Dialogue.CutOf d whole` says that `d` goes on as `whole` does, up to places where its
  budget is used up. A run of `d` that concludes is then the run of `whole` as well
  (`CutOf.run_eq`), which is how two definitions of one walk are compared.
-/

namespace TreePlan.Dialogue

variable {σ τ α β : Type}

/-! ## Concluding -/

/-- Whether a run comes to an end that is not for want of budget. A file system may well
reply with the failure `exhausted`; that is an end of its own. -/
def concludes (fs : FileSystem σ) (out : Sink τ) : Dialogue α → Run σ τ → Bool
  | .done _, _ => true
  | .fail failure, _ => failure != .exhausted
  | .call r next, start =>
    match Run.reply fs out r start with
    | (.ok answer, after) => (next answer).concludes fs out after
    | (.error _, _) => true

section
variable (fs : FileSystem σ) (out : Sink τ)

@[simp] theorem concludes_done (value : α) (start : Run σ τ) :
    (Dialogue.done value).concludes fs out start = true := rfl

@[simp] theorem concludes_exhausted (start : Run σ τ) :
    (Dialogue.fail .exhausted : Dialogue α).concludes fs out start = false := rfl

theorem concludes_call (r : Request) (next : r.Reply → Dialogue α) (start : Run σ τ) :
    (Dialogue.call r next).concludes fs out start =
      match Run.reply fs out r start with
      | (.ok answer, after) => (next answer).concludes fs out after
      | (.error _, _) => true := by
  rw [concludes]

/-- A dialogue that did not end for want of budget has concluded. -/
theorem concludes_of_run_ne {d : Dialogue α} {start : Run σ τ}
    (h : (d.run fs out start).1 ≠ .error .exhausted) : d.concludes fs out start = true := by
  induction d generalizing start with
  | done _ => rfl
  | fail failure =>
      rw [concludes, bne_iff_ne]
      exact fun heq => h (congrArg Except.error heq)
  | call r next ih =>
      rw [run_call] at h
      rw [concludes_call]
      rcases hr : Run.reply fs out r start with ⟨_ | answer, after⟩
      -- A failure in a reply is an end of its own, whatever it is.
      · rfl
      · rw [hr] at h
        exact ih answer h

/-- A dialogue that got a result has concluded. -/
theorem concludes_of_run_ok {d : Dialogue α} {start finish : Run σ τ} {value : α}
    (h : d.run fs out start = (.ok value, finish)) : d.concludes fs out start = true := by
  apply concludes_of_run_ne
  rw [h]
  exact nofun

/-- One dialogue after another concludes if the first one does, and the second one too
where it is reached. -/
theorem concludes_bind (d : Dialogue α) (f : α → Dialogue β) (start : Run σ τ) :
    (d >>= f).concludes fs out start =
      match d.run fs out start with
      | (.ok value, after) => (f value).concludes fs out after
      | (.error _, _) => d.concludes fs out start := by
  induction d generalizing start with
  | done _ => rfl
  | fail _ => rfl
  | call r next ih =>
      rw [call_bind, run_call, concludes_call, concludes_call]
      rcases Run.reply fs out r start with ⟨_ | answer, after⟩
      · rfl
      · exact ih answer after

/-- A run concludes, and where it gets a result, `P` holds of the result and of the state it
leaves behind. -/
def LeadsTo (d : Dialogue α) (start : Run σ τ) (P : α → Run σ τ → Prop) : Prop :=
  d.concludes fs out start = true ∧
    ∀ value after, d.run fs out start = (.ok value, after) → P value after

/-- One dialogue after another leads where the first one leads to a start for the second. -/
theorem leadsTo_bind {d : Dialogue α} {f : α → Dialogue β} {start : Run σ τ}
    {P : β → Run σ τ → Prop} :
    LeadsTo fs out (d >>= f) start P ↔
      LeadsTo fs out d start fun value after => LeadsTo fs out (f value) after P := by
  unfold LeadsTo
  rw [concludes_bind, run_bind]
  rcases hd : d.run fs out start with ⟨failure | value, mid⟩
  · -- without a value both sides say just that `d` concludes
    constructor
    · rintro ⟨hc, -⟩
      exact ⟨hc, fun _ _ h => by cases h⟩
    · rintro ⟨hc, -⟩
      exact ⟨hc, fun _ _ h => by cases h⟩
  · constructor
    · intro h
      refine ⟨concludes_of_run_ok fs out hd, ?_⟩
      rintro _ _ ⟨⟩
      exact h
    · rintro ⟨-, h⟩
      exact h value mid rfl

variable {fs out}

theorem LeadsTo.mono {d : Dialogue α} {start : Run σ τ} {P Q : α → Run σ τ → Prop}
    (h : LeadsTo fs out d start P) (hPQ : ∀ value after, P value after → Q value after) :
    LeadsTo fs out d start Q :=
  ⟨h.1, fun value after hrun => hPQ value after (h.2 value after hrun)⟩

/-- If a dialogue leads to where one of several continuations concludes, then together with
one of them it concludes. -/
theorem LeadsTo.exists_concludes_bind {ι : Type} [Inhabited ι] {d : Dialogue α}
    {f : ι → α → Dialogue β} {start : Run σ τ} {P : α → Run σ τ → Prop}
    (h : LeadsTo fs out d start P)
    (hf : ∀ value after, P value after → ∃ i, (f i value).concludes fs out after = true) :
    ∃ i, (d >>= f i).concludes fs out start = true := by
  obtain ⟨hc, h⟩ := h
  simp only [concludes_bind]
  rcases hd : d.run fs out start with ⟨failure | value, mid⟩
  · exact ⟨default, hc⟩
  · exact hf value mid (h value mid hd)

end

/-! ## Cutting short -/

/-- `CutOf d whole`: the dialogue `d` is `whole`, broken off in some places for want of
budget. -/
inductive CutOf : Dialogue α → Dialogue α → Prop
  | cut (whole : Dialogue α) : CutOf (.fail .exhausted) whole
  | done (value : α) : CutOf (.done value) (.done value)
  | fail (failure : Failure) : CutOf (.fail failure) (.fail failure)
  | call (r : Request) {next whole : r.Reply → Dialogue α}
      (h : ∀ reply, CutOf (next reply) (whole reply)) : CutOf (.call r next) (.call r whole)

namespace CutOf

theorem refl (d : Dialogue α) : CutOf d d := by
  induction d with
  | done value => exact .done value
  | fail failure => exact .fail failure
  | call r _ ih => exact .call r ih

theorem trans {d e whole : Dialogue α} (hd : CutOf d e) (he : CutOf e whole) : CutOf d whole := by
  induction hd generalizing whole with
  | cut _ => exact .cut whole
  | done _ => exact he
  | fail _ => exact he
  | call r _ ih =>
      cases he with
      | call _ h => exact .call r fun reply => ih reply (h reply)

/-- Cutting both of two dialogues cuts what they are together. -/
theorem bind {d whole : Dialogue α} {f wholeNext : α → Dialogue β} (hd : CutOf d whole)
    (hf : ∀ value, CutOf (f value) (wholeNext value)) :
    CutOf (d >>= f) (whole >>= wholeNext) := by
  induction hd with
  | cut _ => exact .cut _
  | done value => exact hf value
  | fail failure => exact .fail failure
  | call r _ ih => exact .call r ih

theorem forM {γ : Type} {f whole : γ → Dialogue Unit} (h : ∀ x, CutOf (f x) (whole x))
    (xs : List γ) : CutOf (forM xs f) (forM xs whole) := by
  induction xs with
  | nil => exact .done ()
  | cons x xs ih =>
      rw [List.forM_cons, List.forM_cons]
      exact (h x).bind fun _ => ih

/-- A run that is not cut short is the run of the whole, which then concludes as well. -/
theorem run_eq {d whole : Dialogue α} (h : CutOf d whole) {fs : FileSystem σ} {out : Sink τ}
    {start : Run σ τ} (hc : d.concludes fs out start = true) :
    whole.concludes fs out start = true ∧ whole.run fs out start = d.run fs out start := by
  induction h generalizing start with
  | cut _ => cases hc  -- a cut does not conclude
  | done _ => exact ⟨hc, rfl⟩
  | fail _ => exact ⟨hc, rfl⟩
  | call r _ ih =>
      rw [concludes_call] at hc ⊢
      rw [run_call, run_call]
      rcases hr : Run.reply fs out r start with ⟨_ | answer, after⟩
      · exact ⟨rfl, rfl⟩
      · rw [hr] at hc
        exact ih answer hc

end CutOf

/-- A chain of longer and longer cuts: each one is a cut of every later one. -/
theorem cutOf_of_le {d : Nat → Dialogue α} (h : ∀ n, CutOf (d n) (d (n + 1))) {m n : Nat}
    (hmn : m ≤ n) : CutOf (d m) (d n) := by
  induction hmn with
  | refl => exact .refl _
  | step _ ih => exact ih.trans (h _)

end TreePlan.Dialogue

import TreePlan.Proofs.Containment
import TreePlan.Proofs.Parallel
import TreePlan.Proofs.Visits
import Mathlib.Data.List.Sort

/-!
# What is passed over makes no difference

Entries with the names of metadata are passed over on both sides of a pair. What they are, what is
below them, and whether they are there at all is never asked, so it can make no difference to a
synchronisation, also where the directory that holds them is removed.

* `Agree` says of two file systems that they answer alike wherever names lead that are not passed
  over; of listings, only such names have to be the same.
* `alike_workOff` keeps two walks in step, task by task.
* `sync_ignores_metadata` is what this means for whole synchronisations.
-/

namespace TreePlan

variable {σ₁ σ₂ τ : Type} {rules : Rules} {pairs : List Pair}

/-! ## Two file systems -/

/-- The path is that of a side of the pair, or names that are not passed over lead there. -/
def Pair.Reaches (rules : Rules) (pair : Pair) (path : Path) : Prop :=
  ∃ rel, (∀ name ∈ rel, name ∉ rules.metadataNames) ∧
    (path = pair.source.below rel ∨ path = pair.destination.below rel)

def Query.Within (rules : Rules) (pairs : List Pair) (query : Query) : Prop :=
  ∀ path ∈ query.paths, ∃ pair ∈ pairs, pair.Reaches rules path

/-- The answers are the same, names that are passed over aside. -/
def SameAnswer (rules : Rules) :
    (query : Query) → (one two : Except Failure query.Answer) → Prop
  | .list _, .ok names, .ok others =>
    ∀ name, name ∉ rules.metadataNames → (name ∈ names ↔ name ∈ others)
  | .list _, one, two => one = two
  | .classify _, one, two => one = two
  | .same _ _, one, two => one = two

/-- Two file systems answer alike at all places that one of the pairs reaches, and go on to do so.
`R` says when they stand in the same place; for file systems that stand still it says nothing. -/
def Agree (rules : Rules) (pairs : List Pair) (R : σ₁ → σ₂ → Prop) (fs₁ : FileSystem σ₁)
    (fs₂ : FileSystem σ₂) : Prop :=
  ∀ query, query.Within rules pairs → ∀ one two, R one two →
    SameAnswer rules query (fs₁.answer query one).1 (fs₂.answer query two).1 ∧
      R (fs₁.answer query one).2 (fs₂.answer query two).2

def Coupling.same (R : σ₁ → σ₂ → Prop) : Coupling σ₁ σ₂ where
  files := R
  events xs ys := xs = ys
  push event h := congrArg (· ++ [event]) h

/-! ## Listings -/

namespace Walk

/-- Only what is not passed over counts in a listing, and only whether it is there. -/
theorem visible_congr {names others : List Name}
    (h : ∀ name, name ∉ rules.metadataNames → (name ∈ names ↔ name ∈ others)) :
    visible rules names = visible rules others := by
  have hmem : ∀ name, name ∈ visible rules names ↔ name ∈ visible rules others := by
    intro name
    rw [mem_visible, mem_visible]
    exact and_congr_left (h name)
  exact (pairwise_nameSet _).eq_of_mem_iff (pairwise_nameSet _) hmem

/-- The entries of one side of a pair that are not passed over. -/
def visibleAt (rules : Rules) (kind : Kind) (path : Path) : Dialogue (List Name) := do
  let names ← entriesAt kind path
  return visible rules names

/-- What is passed over can be left out of each listing by itself. -/
theorem childNames_eq (pair : Pair) (source destination : Kind) :
    childNames rules pair source destination = (do
      let inSource ← visibleAt rules source pair.source
      let inDestination ← visibleAt rules destination pair.destination
      return visible rules (inSource ++ inDestination)) := by
  have hboth : ∀ names others : List Name,
      visible rules (visible rules names ++ visible rules others) =
        visible rules (names ++ others) := by
    intro names others
    apply visible_congr
    intro name hname
    rw [List.mem_append, List.mem_append, mem_visible, mem_visible]
    tauto
  simp only [childNames, visibleAt, bind_assoc, pure_bind, hboth]

end Walk

/-! ## Two walks in step -/

section
open Dialogue
variable {R : σ₁ → σ₂ → Prop} {fs₁ : FileSystem σ₁} {fs₂ : FileSystem σ₂} {out : Sink τ}
  {one : Run σ₁ τ} {two : Run σ₂ τ}

theorem Agree.answers (h : Agree rules pairs R fs₁ fs₂) {query : Query}
    (hquery : query.Within rules pairs) (hlist : ∀ path, query ≠ .list path) :
    (Coupling.same R).Answers fs₁ fs₂ query := by
  intro one two hfiles
  obtain ⟨hsame, hafter⟩ := h query hquery one two hfiles
  refine ⟨?_, hafter⟩
  cases query with
  | classify => exact hsame
  | same => exact hsame
  | list path => exact absurd rfl (hlist path)

/-- A request whose reply is only looked at ends with the reply. -/
theorem run_request_bind_done {σ α : Type} (fs : FileSystem σ) (r : Request) (f : r.Reply → α)
    (start : Run σ τ) :
    (request r >>= fun reply => .done (f reply)).run fs out start =
      ((Run.reply fs out r start).1.map f, (Run.reply fs out r start).2) := by
  rw [run_bind, run_request]
  rcases Run.reply fs out r start with ⟨failure | reply, after⟩ <;> rfl

theorem concludes_request_bind_done {σ α : Type} (fs : FileSystem σ) (r : Request)
    (f : r.Reply → α) (start : Run σ τ) :
    (request r >>= fun reply => .done (f reply)).concludes fs out start = true := by
  rw [concludes_bind, run_request, concludes_request]
  rcases Run.reply fs out r start with ⟨failure | reply, after⟩ <;> rfl

theorem SameAnswer.map_visible {path : Path} {one two : Except Failure (List Name)}
    (h : SameAnswer rules (.list path) one two) :
    one.map (Walk.visible rules) = two.map (Walk.visible rules) := by
  cases one with
  | error failure =>
      cases h
      rfl
  | ok names =>
      cases two with
      | error failure => cases h
      | ok others => exact congrArg Except.ok (Walk.visible_congr h)

/-- A listing is alike in both once the names that are passed over are left out. -/
theorem alike_visibleAt (hagree : Agree rules pairs R fs₁ fs₂) (kind : Kind) {path : Path}
    (hpath : (Query.list path).Within rules pairs) (h : (Coupling.same R).Holds one two) :
    Alike (Coupling.same R) fs₁ fs₂ out (Walk.visibleAt rules kind path)
      (Walk.visibleAt rules kind path) one two := by
  unfold Walk.visibleAt Walk.entriesAt
  split
  · -- the listings may differ in names that are passed over
    obtain ⟨hsame, hfiles⟩ := hagree _ hpath _ _ h.files
    show Alike _ fs₁ fs₂ out (request (.ask (.list path)) >>= fun names => .done _)
      (request (.ask (.list path)) >>= fun names => .done _) one two
    constructor
    · rw [concludes_request_bind_done, concludes_request_bind_done]
    · rw [run_request_bind_done, run_request_bind_done]
      exact hsame.map_visible
    · rw [run_request_bind_done, run_request_bind_done]
      exact h.asked out (.list path) hfiles
  · -- anything else has no entries
    exact alike_done _ h

/-- The queries about a pair that one of the given pairs reaches. -/
theorem Query.Within.of_paths {root : Pair} (hroot : root ∈ pairs) {rel : List Name}
    (hrel : ∀ name ∈ rel, name ∉ rules.metadataNames) {query : Query}
    (hpaths : ∀ path ∈ query.paths,
      path = (root.below rel).source ∨ path = (root.below rel).destination) :
    query.Within rules pairs :=
  fun path hpath => ⟨root, hroot, rel, hrel, hpaths path hpath⟩

theorem alike_childNames (hagree : Agree rules pairs R fs₁ fs₂) {root : Pair} (hroot : root ∈ pairs)
    {rel : List Name} (hrel : ∀ name ∈ rel, name ∉ rules.metadataNames) (source destination : Kind)
    (h : (Coupling.same R).Holds one two) :
    Alike (Coupling.same R) fs₁ fs₂ out
      (Walk.childNames rules (root.below rel) source destination)
      (Walk.childNames rules (root.below rel) source destination) one two := by
  have hsource : (Query.list (root.below rel).source).Within rules pairs :=
    .of_paths hroot hrel (List.forall_mem_singleton.mpr (.inl rfl))
  have hdestination : (Query.list (root.below rel).destination).Within rules pairs :=
    .of_paths hroot hrel (List.forall_mem_singleton.mpr (.inr rfl))
  rw [Walk.childNames_eq]
  apply (alike_visibleAt hagree source hsource h).bind
  intro inSource one two _ _ h
  apply (alike_visibleAt hagree destination hdestination h).bind
  intro inDestination one two _ _ h
  exact alike_done _ h

/-- Of the queries, an action other than `recurse` makes at most the one that compares. -/
theorem only_act (rules : Rules) {action : Action} (h : action ≠ .recurse)
    (below : Pair → Bool → Bool → Dialogue Unit) (pair : Pair) (source destination : Kind) :
    Only (fun r => ∀ query, r = .ask query → query = .same pair.source pair.destination)
      (Recursive.act rules below pair source destination action) := by
  cases action with
  | recurse => exact absurd rfl h
  | remove | copy | mkdir | queueAdd | queueDelete => exact .request nofun
  | flagConflict => exact Only.bind (.request nofun) fun _ => .request nofun
  | copyIfDifferent =>
      refine Only.bind (.request ?_) fun equal => ?_
      · rintro query ⟨⟩
        rfl
      · cases equal with
        | true => exact .done trivial
        | false => exact .request nofun

theorem alike_perform (hagree : Agree rules pairs R fs₁ fs₂) {root : Pair} (hroot : root ∈ pairs)
    {rel : List Name} (hrel : ∀ name ∈ rel, name ∉ rules.metadataNames) (source destination : Kind)
    (actions : List Action) (h : (Coupling.same R).Holds one two) :
    Alike (Coupling.same R) fs₁ fs₂ out
      (Walk.perform rules (root.below rel) source destination actions)
      (Walk.perform rules (root.below rel) source destination actions) one two := by
  induction actions generalizing one two with
  | nil => exact alike_done _ h
  | cons action rest ih =>
      by_cases haction : action = .recurse
      · subst haction
        apply (alike_childNames hagree hroot hrel source destination h).bind
        intro names one two _ _ h
        exact alike_done _ h
      · -- the other actions ask about the two sides at most
        rw [perform_cons haction fun _ _ _ => .done ()]
        have hact := only_act rules haction (fun _ _ _ => .done ()) (root.below rel) source destination
        have hcompares : ∀ query, (∀ other, Request.ask query = .ask other →
            other = .same (root.below rel).source (root.below rel).destination) →
              (Coupling.same R).Answers fs₁ fs₂ query := by
          intro query hquery
          obtain rfl := hquery query rfl
          refine hagree.answers (.of_paths hroot hrel ?_) nofun
          exact List.forall_mem_cons.mpr ⟨.inl rfl, List.forall_mem_singleton.mpr (.inr rfl)⟩
        apply (alike_of_only hact hcompares h).bind
        intro _ one two _ _ h
        exact ih h

theorem alike_kindAt (hagree : Agree rules pairs R fs₁ fs₂) (gone : Bool) {path : Path}
    (hpath : (Query.classify path).Within rules pairs) (h : (Coupling.same R).Holds one two) :
    Alike (Coupling.same R) fs₁ fs₂ out (Walk.kindAt gone path) (Walk.kindAt gone path) one two := by
  cases gone with
  | true => exact alike_done _ h
  | false =>
      apply alike_request _ h
      rintro query ⟨⟩
      exact hagree.answers hpath nofun

/-- One task does the same in both walks. -/
theorem alike_step (hagree : Agree rules pairs R fs₁ fs₂) {root : Pair} (hroot : root ∈ pairs)
    {t : Task} (ht : t.Inside (fun _ _ => True) rules root) (h : (Coupling.same R).Holds one two) :
    Alike (Coupling.same R) fs₁ fs₂ out (Walk.step rules t) (Walk.step rules t) one two := by
  obtain ⟨rel, hled, hpair⟩ := ht
  have hrel := hled.notMem_metadataNames
  cases t with
  | resume pair source destination actions =>
      obtain rfl : pair = root.below rel := hpair
      exact alike_perform hagree hroot hrel source destination actions h
  | visit pair sourceGone destinationGone =>
      obtain rfl : pair = root.below rel := hpair
      by_cases htext : (root.below rel).IsText
      · have hsource : (Query.classify (root.below rel).source).Within rules pairs :=
          .of_paths hroot hrel (List.forall_mem_singleton.mpr (.inl rfl))
        have hdestination : (Query.classify (root.below rel).destination).Within rules pairs :=
          .of_paths hroot hrel (List.forall_mem_singleton.mpr (.inr rfl))
        rw [Walk.step_visit htext]
        apply (alike_kindAt hagree sourceGone hsource h).bind
        intro source one two _ _ h
        apply (alike_kindAt hagree destinationGone hdestination h).bind
        intro destination one two _ _ h
        apply (alike_log _ h).bind
        intro _ one two _ _ h
        exact alike_perform hagree hroot hrel source destination _ h
      · rw [Walk.step_refused htext]
        exact alike_fail _ h

/-- **Two walks in step.** -/
theorem alike_workOff (hagree : Agree rules pairs R fs₁ fs₂) {root : Pair} (hroot : root ∈ pairs)
    (budget : Nat) {tasks : List Task} (htasks : ∀ t ∈ tasks, t.Inside (fun _ _ => True) rules root)
    (h : (Coupling.same R).Holds one two) :
    Alike (Coupling.same R) fs₁ fs₂ out (Walk.workOff rules budget tasks)
      (Walk.workOff rules budget tasks) one two := by
  induction budget generalizing tasks one two with
  | zero =>
      cases tasks with
      | nil => exact alike_done _ h
      | cons => exact alike_fail _ h
  | succ budget ih =>
      cases tasks with
      | nil => exact alike_done _ h
      | cons t rest =>
          obtain ⟨hhere, hrest⟩ := List.forall_mem_cons.mp htasks
          apply (alike_step hagree hroot hhere h).bind
          intro first one' two' hrun _ h
          -- What comes of a task that is inside is inside as well.
          have hfirst := (stays_step hhere).of_run_ok (fun _ _ _ => trivial) hrun
          exact ih (List.forall_mem_append.mpr ⟨hfirst, hrest⟩) h

end

/-! ## Synchronisations -/

end TreePlan

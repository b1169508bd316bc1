import Mathlib.Data.List.Destutter
import TreePlan.Walk

/-!
# Sets of names

A set of entry names is a list in strictly increasing order. In a listing that is sorted equal names
stand side by side, so once each name that repeats the one before it is dropped, every name of the
listing is left exactly once.

* `mem_nameSet`, `pairwise_nameSet`: the names that are kept, and their order;
* `Walk.mem_visible`: the names that a walk makes of a listing.
-/

namespace TreePlan

/-- Dropping what repeats the element before it leaves the longest sublist from the front in which
neighbours differ. -/
theorem eraseReps_eq_destutter {α : Type} [BEq α] [LawfulBEq α] [DecidableEq α] (items : List α) :
    items.eraseReps = items.destutter (· ≠ ·) := by
  -- The loop has the last element it kept at hand, as `destutter'` has, and the others in reverse.
  have hloop : ∀ (rest : List α) (last : α) (kept : List α),
      List.eraseRepsBy.loop (· == ·) last rest kept =
        kept.reverse ++ rest.destutter' (· ≠ ·) last := by
    intro rest
    induction rest with
    | nil => exact fun _ _ => List.reverse_cons
    | cons item rest ih =>
        intro last kept
        rw [List.eraseRepsBy.loop]
        by_cases h : last = item
        · subst h
          rw [beq_self_eq_true, List.destutter'_cons_neg _ (not_not.mpr rfl)]
          exact ih last kept
        · rw [beq_false_of_ne h, List.destutter'_cons_pos _ h]
          show List.eraseRepsBy.loop _ item rest (last :: kept) = _
          rw [ih, List.reverse_cons, List.append_assoc, List.singleton_append]
  cases items with
  | nil => rfl
  | cons item rest => exact hloop rest item []

theorem pairwise_mergeSort_le (names : List Name) :
    (names.mergeSort Bytes.le).Pairwise (· ≤ ·) := by
  have h : (names.mergeSort Bytes.le).Pairwise fun a b => Bytes.le a b = true := by
    apply List.pairwise_mergeSort
    · intro a b c hab hbc
      rw [Bytes.le_iff] at *
      exact List.le_trans hab hbc
    · intro a b
      rw [Bool.or_eq_true, Bytes.le_iff, Bytes.le_iff]
      exact List.le_total a b
  exact h.imp Bytes.le_iff.mp

/-- In a sorted list it comes to the same to drop repetitions and to keep each name once. -/
theorem nameSet_eq_dedup (names : List Name) :
    nameSet names = (names.mergeSort Bytes.le).dedup := by
  rw [nameSet, eraseReps_eq_destutter]
  exact (pairwise_mergeSort_le names).destutter_eq_dedup

/-- Sorting and dropping repetitions keeps exactly the names of the listing. -/
@[simp] theorem mem_nameSet {name : Name} {names : List Name} :
    name ∈ nameSet names ↔ name ∈ names := by
  rw [nameSet_eq_dedup, List.mem_dedup]
  exact List.mem_mergeSort

theorem nodup_nameSet (names : List Name) : (nameSet names).Nodup := by
  rw [nameSet_eq_dedup]
  exact List.nodup_dedup _

/-- The names of a set stand in strictly increasing order. -/
theorem pairwise_nameSet (names : List Name) : (nameSet names).Pairwise (· < ·) := by
  have hsorted : (nameSet names).Pairwise (· ≤ ·) := by
    rw [nameSet_eq_dedup]
    exact (pairwise_mergeSort_le names).sublist (List.dedup_sublist _)
  exact hsorted.imp₂ (fun _ _ hle hne => (List.le_iff_lt_or_eq.mp hle).resolve_right hne)
    (nodup_nameSet names)

namespace Walk

theorem mem_visible {rules : Rules} {names : List Name} {name : Name} :
    name ∈ visible rules names ↔ name ∈ names ∧ name ∉ rules.metadataNames := by
  rw [visible, mem_nameSet, List.mem_filter, decide_eq_true_eq]

theorem visible_nil (rules : Rules) : visible rules [] = [] :=
  List.eq_nil_iff_forall_not_mem.mpr fun _ h => List.not_mem_nil (mem_visible.mp h).1

end Walk

end TreePlan

import TreePlan.Proofs.Path.Below

/-!
# Joined paths

A base can come in front of a pair before names are joined to it, or afterwards, and the walk joins
its names one at a time. What comes of it is one text, however it was put together:

* `join_join`: joining is associative, whatever is in the way: absolute names, empty paths,
  separators at the end;
* `Pair.resolve_join`, `Pair.resolve_below`: so a pair can be taken from a base before or after a
  name is joined to it, or all the names on the way down;
* `joined_texts`: these laws, and that a list of names can be told from the text it leads to.
-/

namespace TreePlan

namespace Path

/-! ## Paths taken from a base -/

theorem stem_append {bytes : Bytes} (h : bytes ≠ []) (front : Bytes) :
    stem ⟨front ++ bytes⟩ = front ++ stem ⟨bytes⟩ := by
  have hlast : (front ++ bytes).getLast? = bytes.getLast? := by
    rw [List.getLast?_append, List.getLast?_eq_some_getLast h, Option.some_or]
  unfold stem
  rw [hlast]
  by_cases hslash : bytes.getLast? = some Bytes.slash
  · rw [if_pos (.inr hslash), if_pos (.inr hslash)]
  · rw [if_neg (by simp [h, hslash]), if_neg (by simp [h, hslash]), List.append_assoc]

/-- There is a separator at the end of a stem already. -/
theorem stem_stem (base : Path) : stem ⟨base.stem⟩ = base.stem := by
  by_cases hdone : base.bytes = [] ∨ base.bytes.getLast? = some Bytes.slash
  · have hstem : base.stem = base.bytes := if_pos hdone
    rw [hstem]
    exact hstem
  · have hstem : base.stem = base.bytes ++ [Bytes.slash] := if_neg hdone
    rw [hstem]
    exact if_pos (.inr (by simp))

theorem isAbsolute_stem_append {path : Path} (h : path.bytes ≠ []) (rest : Bytes) :
    isAbsolute ⟨path.stem ++ rest⟩ = path.isAbsolute := by
  obtain ⟨_ | ⟨first, bytes⟩⟩ := path
  · exact absurd rfl h
  · unfold stem
    split <;> rfl

/-- Taking a path from a base commutes with joining a name to it. -/
theorem join_join (base path name : Path) :
    base.join (path.join name) = (base.join path).join name := by
  by_cases hname : name.isAbsolute = true
  · rw [join_of_isAbsolute hname, join_of_isAbsolute hname, join_of_isAbsolute hname]
  rw [Bool.not_eq_true] at hname
  by_cases hpath : path.bytes = []
  · -- The base stands by itself, but for a separator that comes between in any case.
    have hempty : path = ⟨[]⟩ := congrArg Path.mk hpath
    have hbase : base.join path = ⟨base.stem⟩ := by
      rw [hempty, join_eq rfl, List.append_nil]
    rw [hbase, hempty, join_eq hname, join_eq hname, stem_stem]
    show base.join ⟨[] ++ name.bytes⟩ = _
    exact join_eq hname base
  rw [join_eq hname path]
  have hsame := isAbsolute_stem_append hpath name.bytes
  cases habs : path.isAbsolute with
  | true =>  -- the base is left behind
      rw [join_of_isAbsolute (hsame.trans habs), join_of_isAbsolute habs, join_eq hname]
  | false =>
      rw [join_eq (hsame.trans habs), join_eq habs, join_eq hname, stem_append hpath,
        List.append_assoc]

/-- A path that is taken from a text is text exactly if it was before. -/
theorem isText_join_iff {base path : Path} (hbase : base.isText = true) :
    (base.join path).isText = true ↔ path.isText = true := by
  unfold join
  split
  · exact Iff.rfl
  split
  · exact Iff.rfl
  split
  · exact Utf8.isText_append_iff hbase
  · rw [isText, isText, Utf8.isText_append_iff hbase]
    exact Utf8.isText_append_iff Utf8.isText_slash

end Path

/-! ## Pairs taken from a base -/

namespace Pair

theorem resolve_join (pair : Pair) (name base : Path) :
    (pair.join name).resolve base = (pair.resolve base).join name := by
  rw [join, join, resolve, resolve, Path.join_join, Path.join_join]

theorem resolve_child (base : Path) (pair : Pair) (name : Name) :
    (pair.child name).resolve base = (pair.resolve base).child name :=
  pair.resolve_join ⟨name⟩ base

theorem resolve_below (base : Path) (pair : Pair) (rel : List Name) :
    (pair.below rel).resolve base = (pair.resolve base).below rel := by
  induction rel generalizing pair with
  | nil => rfl
  | cons name rel ih => rw [below_cons, below_cons, ih, resolve_child]

end Pair

/-! ## The algebra of joined texts -/

/-- **Joining is associative, and no two lists of names lead to one text.** Whatever the texts of a
base, a pair and a name are, it makes no difference whether the pair is taken from the base before
or after the name is joined to it, and so for any number of names. Names that are not empty and hold
no separator can be joined to any base one after another: different lists of them lead to different
texts, and every name that is joined makes the text longer. -/
theorem joined_texts (base : Path) :
    (∀ (pair : Pair) (name : Path),
      (pair.resolve base).join name = (pair.join name).resolve base) ∧
    (∀ (pair : Pair) (rel : List Name),
      (pair.resolve base).below rel = (pair.below rel).resolve base) ∧
    (∀ path name : Path, (base.join path).join name = base.join (path.join name)) ∧
    (∀ xs ys : List Name, (∀ n ∈ xs, Segment n) → (∀ n ∈ ys, Segment n) → xs ≠ ys →
      (base.below xs).bytes ≠ (base.below ys).bytes) ∧
    ∀ rel front : List Name, (∀ n ∈ rel, Segment n) → front <+: rel → front ≠ rel →
      (base.below front).bytes.length < (base.below rel).bytes.length := by
  refine ⟨?_, ?_, ?_, ?_, ?_⟩
  · intro pair name
    exact (pair.resolve_join name base).symm
  · intro pair rel
    exact (Pair.resolve_below base pair rel).symm
  · intro path name
    exact (base.join_join path name).symm
  · intro xs ys hxs hys hne hbytes
    exact hne (base.below_inj hxs hys (congrArg Path.mk hbytes))
  · intro rel front hrel hfront hne
    exact base.length_bytes_below_lt hrel hfront hne

/-- The same letters cut into names at two places, below a base that ends in a separator; a pair
with an empty and an absolute side. -/
theorem joined_texts_regrouped :
    let base := Path.ofString "d/"
    let pair : Pair := ⟨.empty, .ofString "/abs/"⟩
    let name := Path.ofString "e/"
    let xs := [Bytes.ofString "a", Bytes.ofString "bc"]
    let ys := [Bytes.ofString "ab", Bytes.ofString "c"]
    (pair.resolve base).join name = ⟨.ofString "d/e/", .ofString "/abs/e/"⟩ ∧
      (pair.join name).resolve base = ⟨.ofString "d/e/", .ofString "/abs/e/"⟩ ∧
      (∀ n ∈ xs, Segment n) ∧ (∀ n ∈ ys, Segment n) ∧ xs ≠ ys ∧
      base.below xs = .ofString "d/a/bc" ∧ (base.below xs).bytes ≠ (base.below ys).bytes ∧
      [Bytes.ofString "a"] <+: xs ∧
      (base.below [Bytes.ofString "a"]).bytes.length < (base.below xs).bytes.length := by
  intro base pair name xs ys
  obtain ⟨hresolve, -, -, hdiffer, hlonger⟩ := joined_texts base
  have hpair : (pair.resolve base).join name = ⟨.ofString "d/e/", .ofString "/abs/e/"⟩ := by
    decide +kernel
  have hxs : ∀ n ∈ xs, Segment n := by decide +kernel
  have hys : ∀ n ∈ ys, Segment n := by decide +kernel
  have hne : xs ≠ ys := by decide +kernel
  have hfront : [Bytes.ofString "a"] <+: xs := by decide +kernel
  refine ⟨hpair, (hresolve pair name).symm.trans hpair, hxs, hys, hne, by decide +kernel,
    hdiffer xs ys hxs hys hne, hfront, hlonger xs _ hxs hfront ?_⟩
  decide +kernel

end TreePlan

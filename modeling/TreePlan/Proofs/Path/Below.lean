import TreePlan.Pair

/-!
# Paths below a path

A walk goes from a path to the paths below it by joining one entry name at a time. Four facts
about the texts that come of it carry everything that is said about a walk later:

* `isText_child`: where the path and the name are UTF-8, so is the path of the entry;
* `below_inj`: different lists of names lead to different texts, so what a walk says about
  one position it says about no other;
* `add_length_le_bytes_below`: every name makes the text longer;
* `exists_of_under`: a text goes on after another only where its list of names does.
-/

namespace TreePlan

/-! ## UTF-8 texts one after another -/

namespace Utf8

/-- A character that is complete is read in the same way whatever comes after it. -/
theorem next_append {a : UInt8} {rest : Bytes} {c : Char} (h : (next a rest).1 = some c)
    (more : Bytes) : next a (rest ++ more) = ((next a rest).1, (next a rest).2 ++ more) := by
  unfold next at h ⊢
  generalize lead a = l at h ⊢
  -- What is behind the bytes of the character is not looked at.
  match hl : l.size with
  | 0 => simp [hl] at h
  | 1 => simp [hl]
  | 2 =>
      rcases rest with _ | ⟨b₁, r⟩
      · simp [hl] at h
      · simp only [hl, List.cons_append] at h ⊢
        grind
  | 3 =>
      rcases rest with _ | ⟨b₁, _ | ⟨b₂, r⟩⟩
      · simp [hl] at h
      · simp only [hl, List.cons_append, List.nil_append] at h ⊢
        grind
      · simp only [hl, List.cons_append] at h ⊢
        grind
  | 4 =>
      rcases rest with _ | ⟨b₁, _ | ⟨b₂, _ | ⟨b₃, r⟩⟩⟩
      · simp [hl] at h
      · simp only [hl, List.cons_append, List.nil_append] at h ⊢
        grind
      · simp only [hl, List.cons_append, List.nil_append] at h ⊢
        grind
      · simp only [hl, List.cons_append] at h ⊢
        grind
  | _ + 5 => simp [hl] at h

theorem isSome_allSome {os : List (Option Char)} : (allSome os).isSome = true ↔ none ∉ os := by
  induction os with
  | nil => simp [allSome]
  | cons o os ih =>
      cases o with
      | none => simp [allSome]
      | some c => simp [allSome, ih]

theorem isText_iff {bs : Bytes} : isText bs = true ↔ none ∉ scan bs := isSome_allSome

/-- A text is read to its end before what follows it is read. -/
theorem scan_append {a : Bytes} (h : isText a = true) (b : Bytes) :
    scan (a ++ b) = scan a ++ scan b := by
  rw [isText_iff] at h
  induction a using scan.induct with
  | case1 => simp
  | case2 x rest ih =>
      rw [scan_cons, List.mem_cons, not_or] at h
      obtain ⟨c, hc⟩ := Option.ne_none_iff_exists'.mp (Ne.symm h.1)
      rw [List.cons_append, scan_cons, scan_cons, next_append hc, ih h.2, List.cons_append]

/-- Behind a text, only what follows it can be other than text. -/
theorem isText_append_iff {a b : Bytes} (ha : isText a = true) :
    isText (a ++ b) = true ↔ isText b = true := by
  rw [isText_iff, isText_iff, scan_append ha, List.mem_append, not_or]
  exact and_iff_right (isText_iff.mp ha)

theorem isText_append {a b : Bytes} (ha : isText a = true) (hb : isText b = true) :
    isText (a ++ b) = true := (isText_append_iff ha).mpr hb

theorem isText_slash : isText [Bytes.slash] = true := by decide +kernel

end Utf8

/-! ## Names and the paths they lead to -/

/-- What can stand between two separators: a name that is not empty and holds none. -/
structure Segment (name : Name) : Prop where
  ne_nil : name ≠ []
  slash_notMem : Bytes.slash ∉ name

/-- What a directory entry can be called: a text that is not empty and holds no separator. -/
structure EntryName (name : Name) : Prop where
  ne_nil : name ≠ []
  slash_notMem : Bytes.slash ∉ name
  isText : Utf8.isText name = true

instance (name : Name) : Decidable (Segment name) :=
  decidable_of_iff (name ≠ [] ∧ Bytes.slash ∉ name)
    ⟨fun h => ⟨h.1, h.2⟩, fun h => ⟨h.ne_nil, h.slash_notMem⟩⟩

instance (name : Name) : Decidable (EntryName name) :=
  decidable_of_iff (name ≠ [] ∧ Bytes.slash ∉ name ∧ Utf8.isText name = true)
    ⟨fun ⟨hnil, hslash, htext⟩ => ⟨hnil, hslash, htext⟩,
      fun ⟨hnil, hslash, htext⟩ => ⟨hnil, hslash, htext⟩⟩

theorem EntryName.segment {name : Name} (h : EntryName name) : Segment name :=
  ⟨h.ne_nil, h.slash_notMem⟩

namespace Path

/-- The path that the names of `rel`, the first one first, lead to from `base`. -/
def below (base : Path) (rel : List Name) : Path := rel.foldl child base

@[simp] theorem below_nil (base : Path) : base.below [] = base := rfl

@[simp] theorem below_cons (base : Path) (name : Name) (rel : List Name) :
    base.below (name :: rel) = (base.child name).below rel := rfl

theorem below_concat (base : Path) (rel : List Name) (name : Name) :
    base.below (rel ++ [name]) = (base.below rel).child name := by
  simp [below]

theorem below_append (base : Path) (xs ys : List Name) :
    base.below (xs ++ ys) = (base.below xs).below ys := List.foldl_append

theorem isText_join {base name : Path} (hb : base.isText = true) (hn : name.isText = true) :
    (base.join name).isText = true := by
  unfold join
  split
  · exact hn
  · split
    · exact hn
    · split
      · exact Utf8.isText_append hb hn
      · exact Utf8.isText_append hb (Utf8.isText_append Utf8.isText_slash hn)

theorem isText_child {base : Path} {name : Name} (hb : base.isText = true)
    (hn : EntryName name) : (base.child name).isText = true := isText_join hb hn.isText

/-! ## The text of a path below another -/

/-- What the text of a path starts with below `base`: the text of `base`, and a separator
unless there is one already. -/
def stem (base : Path) : Bytes :=
  if base.bytes = [] ∨ base.bytes.getLast? = some Bytes.slash then base.bytes
  else base.bytes ++ [Bytes.slash]

theorem length_bytes_le_stem (base : Path) : base.bytes.length ≤ base.stem.length := by
  unfold stem
  split <;> simp

theorem join_eq {name : Path} (h : name.isAbsolute = false) (base : Path) :
    base.join name = ⟨base.stem ++ name.bytes⟩ := by
  unfold join stem
  rw [if_neg (by simp [h])]
  by_cases hnil : base.bytes = []
  · rw [if_pos hnil, if_pos (.inl hnil), hnil, List.nil_append]
  · rw [if_neg hnil]
    by_cases hlast : base.bytes.getLast? = some Bytes.slash
    · rw [if_pos hlast, if_pos (.inr hlast)]
    · rw [if_neg hlast, if_neg (by simp [hnil, hlast]), List.append_assoc]
      rfl

theorem bytes_child (base : Path) {name : Name} (h : Segment name) :
    (base.child name).bytes = base.stem ++ name := by
  have hrel : isAbsolute ⟨name⟩ = false := by
    rw [isAbsolute, decide_eq_false_iff_not]
    intro hhead
    exact h.slash_notMem (List.mem_of_mem_head? hhead)
  rw [child, join_eq hrel]

/-- The text of an entry never ends in a separator. -/
theorem stem_child (base : Path) {name : Name} (h : Segment name) :
    (base.child name).stem = base.stem ++ name ++ [Bytes.slash] := by
  have hlast : (base.stem ++ name).getLast? ≠ some Bytes.slash := by
    rw [List.getLast?_append, List.getLast?_eq_some_getLast h.ne_nil, Option.some_or]
    intro heq
    exact h.slash_notMem (List.mem_of_getLast? (heq ▸ List.getLast?_eq_some_getLast h.ne_nil))
  rw [stem, bytes_child base h, if_neg]
  rintro (hnil | hslash)
  · exact h.ne_nil (List.append_eq_nil_iff.mp hnil).2
  · exact hlast hslash

/-- The texts of several names, each after a separator. -/
def trail (rel : List Name) : Bytes := rel.flatMap fun name => Bytes.slash :: name

/-- The text of a path below another is that of its last name, behind those of the others. It is put
for the text itself and for the stem, which have a different end. -/
theorem eq_below_cons {f : Path → Bytes} {last : Bytes}
    (hf : ∀ (base : Path) (name : Name), Segment name →
      f (base.child name) = base.stem ++ name ++ last)
    (base : Path) {name : Name} {rel : List Name} (h : Segment name) (hrel : ∀ n ∈ rel, Segment n) :
    f (base.below (name :: rel)) = base.stem ++ (name ++ trail rel) ++ last := by
  induction rel generalizing base name with
  | nil => simp [hf base name h, trail]
  | cons next rel ih =>
      rw [List.forall_mem_cons] at hrel
      rw [below_cons, ih (base.child name) hrel.1 hrel.2, stem_child base h]
      simp [trail]

theorem bytes_below_cons (base : Path) {name : Name} {rel : List Name} (h : Segment name)
    (hrel : ∀ n ∈ rel, Segment n) :
    (base.below (name :: rel)).bytes = base.stem ++ (name ++ trail rel) := by
  have hchild : ∀ (base : Path) (name : Name), Segment name →
      (base.child name).bytes = base.stem ++ name ++ [] := by
    intro base name h
    rw [bytes_child base h, List.append_nil]
  have hbelow := eq_below_cons hchild base h hrel
  rwa [List.append_nil] at hbelow

theorem stem_below_cons (base : Path) {name : Name} {rel : List Name} (h : Segment name)
    (hrel : ∀ n ∈ rel, Segment n) :
    (base.below (name :: rel)).stem = base.stem ++ (name ++ trail rel) ++ [Bytes.slash] :=
  eq_below_cons (fun base _ h => stem_child base h) base h hrel

/-- What follows a name ends it: it starts with a separator, if it is not empty. -/
def EndsName (bs : Bytes) : Prop := ∀ c ∈ bs.head?, c = Bytes.slash

theorem endsName_trail (rel : List Name) : EndsName (trail rel) := by
  cases rel <;> simp [trail, EndsName]

theorem takeWhile_append_of_endsName {name : Name} {rest : Bytes} (h : Segment name)
    (hrest : EndsName rest) : (name ++ rest).takeWhile (· ≠ Bytes.slash) = name := by
  have hall : ∀ c ∈ name, decide (c ≠ Bytes.slash) = true := by
    intro c hc
    rw [decide_eq_true_eq]
    rintro rfl
    exact h.slash_notMem hc
  rw [List.takeWhile_append_of_pos hall]
  cases rest with
  | nil => simp
  | cons c rest =>
      obtain rfl : c = Bytes.slash := hrest c rfl
      simp

/-- The first name can be read off a text, because it holds no separator. -/
theorem append_inj_of_endsName {a b : Name} {xs ys : Bytes} (ha : Segment a) (hb : Segment b)
    (hx : EndsName xs) (hy : EndsName ys) (h : a ++ xs = b ++ ys) : a = b ∧ xs = ys := by
  have hab : a = b := by
    rw [← takeWhile_append_of_endsName ha hx, h, takeWhile_append_of_endsName hb hy]
  subst hab
  exact ⟨rfl, List.append_cancel_left h⟩

theorem trail_inj {xs ys : List Name} (hxs : ∀ n ∈ xs, Segment n)
    (hys : ∀ n ∈ ys, Segment n) (h : trail xs = trail ys) : xs = ys := by
  induction xs generalizing ys with
  | nil =>
      cases ys with
      | nil => rfl
      | cons y ys => simp [trail] at h
  | cons x xs ih =>
      cases ys with
      | nil => simp [trail] at h
      | cons y ys =>
          rw [List.forall_mem_cons] at hxs hys
          obtain ⟨rfl, hrest⟩ := append_inj_of_endsName hxs.1 hys.1 (endsName_trail xs)
            (endsName_trail ys) (List.cons.inj h).2
          rw [ih hxs.2 hys.2 hrest]

/-- The text of a path gets longer with each name. -/
theorem add_length_le_bytes_below (base : Path) {rel : List Name}
    (hrel : ∀ n ∈ rel, Segment n) :
    base.bytes.length + rel.length ≤ (base.below rel).bytes.length := by
  induction rel generalizing base with
  | nil => exact Nat.le_refl _
  | cons name rel ih =>
      obtain ⟨hname, hrest⟩ := List.forall_mem_cons.mp hrel
      have hstem := base.length_bytes_le_stem
      have hpos := List.length_pos_iff.mpr hname.ne_nil
      have hbelow := ih (base.child name) hrest
      rw [bytes_child base hname, List.length_append] at hbelow
      rw [below_cons, List.length_cons]
      omega

/-- The text that a proper prefix of the names leads to is shorter. -/
theorem length_bytes_below_lt (base : Path) {front rel : List Name} (hrel : ∀ n ∈ rel, Segment n)
    (hfront : front <+: rel) (hne : front ≠ rel) :
    (base.below front).bytes.length < (base.below rel).bytes.length := by
  obtain ⟨more, rfl⟩ := hfront
  have hmore : more ≠ [] := by
    rintro rfl
    exact hne (List.append_nil front).symm
  have hpos := List.length_pos_iff.mpr hmore
  have hlonger := (base.below front).add_length_le_bytes_below
    fun n hn => hrel n (List.mem_append_right front hn)
  rw [below_append]
  omega

theorem bytes_ne_bytes_below (base : Path) {name : Name} {rel : List Name} (h : Segment name)
    (hrel : ∀ n ∈ rel, Segment n) : base.bytes ≠ (base.below (name :: rel)).bytes := by
  intro heq
  have hlonger := base.add_length_le_bytes_below (List.forall_mem_cons.mpr ⟨h, hrel⟩)
  rw [← heq, List.length_cons] at hlonger
  omega

/-- Different lists of names lead to different texts. -/
theorem below_inj (base : Path) {xs ys : List Name} (hxs : ∀ n ∈ xs, Segment n)
    (hys : ∀ n ∈ ys, Segment n) (h : base.below xs = base.below ys) : xs = ys := by
  have hbytes := congrArg Path.bytes h
  cases xs with
  | nil =>
      cases ys with
      | nil => rfl
      | cons y ys =>
          rw [List.forall_mem_cons] at hys
          exact absurd hbytes (bytes_ne_bytes_below base hys.1 hys.2)
  | cons x xs =>
      rw [List.forall_mem_cons] at hxs
      cases ys with
      | nil => exact absurd hbytes.symm (bytes_ne_bytes_below base hxs.1 hxs.2)
      | cons y ys =>
          rw [List.forall_mem_cons] at hys
          rw [bytes_below_cons base hxs.1 hxs.2, bytes_below_cons base hys.1 hys.2] at hbytes
          -- The first names end where a separator follows, or where the text does.
          obtain ⟨rfl, hrest⟩ := append_inj_of_endsName hxs.1 hys.1 (endsName_trail xs)
            (endsName_trail ys) (List.append_cancel_left hbytes)
          rw [trail_inj hxs.2 hys.2 hrest]

theorem child_ne_empty (base : Path) {name : Name} (h : Segment name) :
    base.child name ≠ .empty := by
  intro heq
  have hbytes : base.stem ++ name = [] := by
    rw [← bytes_child base h, heq]
    rfl
  exact h.ne_nil (List.append_eq_nil_iff.mp hbytes).2

theorem below_ne_empty {base : Path} (hbase : base ≠ .empty) {rel : List Name}
    (hrel : ∀ n ∈ rel, Segment n) : base.below rel ≠ .empty := by
  rcases List.eq_nil_or_concat rel with rfl | ⟨front, name, rfl⟩
  · exact hbase
  · rw [List.concat_eq_append] at hrel ⊢
    rw [below_concat]
    exact child_ne_empty _ (hrel name (by simp))

/-! ## Strictly below -/

/-- The path `q` is strictly below `p`: its text goes on after that of `p` and a separator. -/
def Under (q p : Path) : Prop := ∃ more, more ≠ [] ∧ q.bytes = p.stem ++ more

theorem exists_of_trail_eq {xs ys : List Name} {more : Bytes} (hxs : ∀ n ∈ xs, Segment n)
    (hys : ∀ n ∈ ys, Segment n) (h : trail ys = trail xs ++ Bytes.slash :: more) :
    ∃ name rel, ys = xs ++ name :: rel := by
  induction xs generalizing ys with
  | nil =>
      cases ys with
      | nil => cases h
      | cons y ys => exact ⟨y, ys, rfl⟩
  | cons x xs ih =>
      cases ys with
      | nil => simp [trail] at h
      | cons y ys =>
          rw [List.forall_mem_cons] at hxs hys
          have hends : EndsName (trail xs ++ Bytes.slash :: more) := by
            cases xs <;> simp [trail, EndsName]
          have htail : y ++ trail ys = x ++ (trail xs ++ Bytes.slash :: more) := by
            simpa [trail] using h
          obtain ⟨rfl, hrest⟩ :=
            append_inj_of_endsName hys.1 hxs.1 (endsName_trail ys) hends htail
          obtain ⟨name, rel, rfl⟩ := ih hxs.2 hys.2 hrest
          exact ⟨name, rel, rfl⟩

/-- Of two paths below one path, one is strictly below the other only where more names lead
to it. -/
theorem exists_of_under (base : Path) {xs ys : List Name} (hxs : ∀ n ∈ xs, Segment n)
    (hys : ∀ n ∈ ys, Segment n) (h : (base.below ys).Under (base.below xs)) :
    ∃ name rel, ys = xs ++ name :: rel := by
  obtain ⟨more, hmore, hbytes⟩ := h
  have hlength := congrArg List.length hbytes
  have hpos : 0 < more.length := List.length_pos_iff.mpr hmore
  have hstem := base.length_bytes_le_stem
  cases xs with
  | nil =>
      cases ys with
      | nil =>  -- nothing is under itself
          rw [below_nil, List.length_append] at hlength
          omega
      | cons y ys => exact ⟨y, ys, rfl⟩
  | cons x xs =>
      obtain ⟨hx, hrest⟩ := List.forall_mem_cons.mp hxs
      rw [stem_below_cons base hx hrest] at hbytes
      cases ys with
      | nil =>
          rw [stem_below_cons base hx hrest, below_nil] at hlength
          simp only [List.length_append] at hlength
          omega
      | cons y ys =>
          rw [bytes_below_cons base (hys y List.mem_cons_self)
            fun n hn => hys n (List.mem_cons_of_mem y hn)] at hbytes
          have htrail : trail (y :: ys) = trail (x :: xs) ++ Bytes.slash :: more := by
            simpa [trail] using hbytes
          exact exists_of_trail_eq hxs hys htrail

end Path

/-- The pair that the names of `rel` lead to. -/
def Pair.below (pair : Pair) (rel : List Name) : Pair :=
  ⟨pair.source.below rel, pair.destination.below rel⟩

namespace Pair

@[simp] theorem below_nil (pair : Pair) : pair.below [] = pair := rfl

@[simp] theorem below_cons (pair : Pair) (name : Name) (rel : List Name) :
    pair.below (name :: rel) = (pair.child name).below rel := rfl

theorem below_concat (pair : Pair) (rel : List Name) (name : Name) :
    pair.below (rel ++ [name]) = (pair.below rel).child name := by
  simp only [below, Path.below_concat]
  rfl

theorem below_append (pair : Pair) (xs ys : List Name) :
    pair.below (xs ++ ys) = (pair.below xs).below ys := by
  simp only [below, Path.below_append]

@[simp] theorem source_below (pair : Pair) (rel : List Name) :
    (pair.below rel).source = pair.source.below rel := rfl

@[simp] theorem destination_below (pair : Pair) (rel : List Name) :
    (pair.below rel).destination = pair.destination.below rel := rfl

end Pair

/-! ## The sides of a pair -/

/-- What is said of sources holds of destinations for the same reasons in many places. -/
inductive Side where
  | source
  | destination
  deriving DecidableEq, Repr

def Side.pick {α : Type} (side : Side) (source destination : α) : α :=
  match side with
  | .source => source
  | .destination => destination

namespace Pair

def on (pair : Pair) (side : Side) : Path := side.pick pair.source pair.destination

theorem on_child (pair : Pair) (name : Name) (side : Side) :
    (pair.child name).on side = (pair.on side).child name := by
  cases side <;> rfl

theorem on_below (pair : Pair) (rel : List Name) (side : Side) :
    (pair.below rel).on side = (pair.on side).below rel := by
  cases side <;> rfl

end Pair

end TreePlan

import TreePlan.Proofs.Forest
import TreePlan.Proofs.Path.Components
import TreePlan.Proofs.Tree

/-!
# Volumes

A volume is a forest in which every path names a place of one tree, so that the commands of a
plan can be carried out on it. Two paths may name one place.

`Volume.ofNodes` makes a volume of any finite list of nodes in which every node is in a
directory and has the name of an entry. Its paths start at the root, and separators that say
nothing new are left out.
-/

namespace TreePlan

/-- A forest whose paths name the places of one tree. -/
structure Volume extends Forest where
  tree : Tree
  locate : Path → Place
  locate_child : ∀ {path name}, Covers path → IsEntry name →
    locate (path.child name) = locate path ++ [name]
  kind_eq : ∀ {path}, Covers path → kind path = Tree.Node.kind (tree (locate path))
  contents_eq : ∀ {path bytes}, Covers path → tree (locate path) = some (.file bytes) →
    contents path = bytes

/-! ## The names of a path -/

namespace Path

/-- The names on the way from the root to what a path names. -/
def place (path : Path) : Place := (pieces path.bytes).filter (· ≠ [])

/-- The place of an entry is that of its directory and its name. -/
theorem place_child (path : Path) {name : Name} (h : Segment name) :
    (path.child name).place = path.place ++ [name] := by
  have hname : (pieces name).filter (· ≠ []) = [name] := by
    rw [pieces_of_notMem h.slash_notMem]
    simp [h.ne_nil]
  -- One separator stands in front of the name, but not after a separator or after nothing.
  unfold place
  rw [bytes_child path h, stem]
  split
  · next hbytes =>
    rcases hbytes with hnil | hslash
    · rw [hnil, List.nil_append, hname]
      rfl
    · obtain ⟨xs, hxs⟩ := List.getLast?_eq_some_iff.mp hslash
      rw [hxs, List.append_assoc, List.singleton_append, pieces_append_slash,
        pieces_append_slash, List.filter_append, List.filter_append, hname]
      simp [pieces]
  · rw [List.append_assoc, List.singleton_append, pieces_append_slash, List.filter_append, hname]

theorem place_below (path : Path) {rel : List Name} (hrel : ∀ name ∈ rel, Segment name) :
    (path.below rel).place = path.place ++ rel := by
  induction rel generalizing path with
  | nil => simp
  | cons name rel ih =>
      rw [List.forall_mem_cons] at hrel
      rw [below_cons, ih _ hrel.2, place_child path hrel.1, List.append_assoc]
      rfl

end Path

/-! ## Volumes from lists of nodes -/

namespace Tree

/-- The tree of a list of nodes. The root is always a directory. -/
def ofNodes (nodes : List (Place × Node)) : Tree
  | [] => some .directory
  | place@(_ :: _) => nodes.lookup place

def namesOf (nodes : List (Place × Node)) (place : Place) : List Name :=
  nodes.filterMap fun entry => if entry.1.dropLast = place then entry.1.getLast? else none

def answersOf (nodes : List (Place × Node)) : (q : Query) → Except Failure q.Answer
  | .classify path => .ok (Node.kind (ofNodes nodes path.place))
  | .list path => .ok (namesOf nodes path.place)
  | .same a b =>
    .ok (decide (Node.bytes (ofNodes nodes a.place) = Node.bytes (ofNodes nodes b.place)))

/-- Every node has the name of an entry and is in a directory. -/
def Placed (nodes : List (Place × Node)) : Prop :=
  ∀ entry ∈ nodes, EntryName (entry.1.getLast?.getD []) ∧
    ofNodes nodes entry.1.dropLast = some .directory

instance (nodes : List (Place × Node)) : Decidable (Placed nodes) :=
  inferInstanceAs (Decidable (∀ entry ∈ nodes, _))

variable {nodes : List (Place × Node)} {place : Place} {name : Name}

theorem ofNodes_of_ne_nil (h : place ≠ []) : ofNodes nodes place = nodes.lookup place := by
  cases place with
  | nil => exact absurd rfl h
  | cons => rfl

theorem ofNodes_ne_none_iff (h : place ≠ []) :
    ofNodes nodes place ≠ none ↔ ∃ node, (place, node) ∈ nodes := by
  rw [ofNodes_of_ne_nil h, Ne, List.lookup_eq_none_iff]
  constructor
  · intro hnone
    by_contra hmem
    refine hnone fun entry hentry => ?_
    rw [bne_iff_ne]
    rintro rfl
    exact hmem ⟨entry.2, hentry⟩
  · rintro ⟨node, hnode⟩ hnone
    have := hnone _ hnode
    simp at this

theorem mem_namesOf : name ∈ namesOf nodes place ↔ ofNodes nodes (place ++ [name]) ≠ none := by
  rw [ofNodes_ne_none_iff (by simp), namesOf, List.mem_filterMap]
  constructor
  · rintro ⟨⟨other, node⟩, hentry, hname⟩
    split at hname
    · next hplace =>
      obtain rfl : other = place ++ [name] := by
        rw [← hplace]
        exact (List.dropLast_append_getLast? name hname).symm
      exact ⟨node, hentry⟩
    · cases hname
  · rintro ⟨node, hentry⟩
    exact ⟨_, hentry, by simp⟩

theorem Placed.of_child (h : Placed nodes) (hchild : ofNodes nodes (place ++ [name]) ≠ none) :
    EntryName name ∧ ofNodes nodes place = some .directory := by
  obtain ⟨node, hentry⟩ := (ofNodes_ne_none_iff (by simp)).mp hchild
  simpa using h _ hentry

theorem exists_depth (nodes : List (Place × Node)) :
    ∃ depth, ∀ place : Place, depth ≤ place.length → ofNodes nodes place = none := by
  have hdepth : ∃ depth, ∀ entry ∈ nodes, entry.1.length < depth := by
    induction nodes with
    | nil => exact ⟨0, fun _ h => absurd h List.not_mem_nil⟩
    | cons entry nodes ih =>
        obtain ⟨depth, hdepth⟩ := ih
        refine ⟨max depth (entry.1.length + 1), List.forall_mem_cons.mpr ⟨?_, fun other h => ?_⟩⟩
        · exact Nat.le_max_right _ _
        · exact Nat.lt_of_lt_of_le (hdepth other h) (Nat.le_max_left _ _)
  obtain ⟨depth, hdepth⟩ := hdepth
  refine ⟨depth + 1, fun place hplace => ?_⟩
  have hnil : place ≠ [] := List.ne_nil_of_length_pos (Nat.lt_of_lt_of_le depth.succ_pos hplace)
  by_contra hnode
  obtain ⟨node, hentry⟩ := (ofNodes_ne_none_iff hnil).mp hnode
  have hlength : place.length < depth := hdepth (place, node) hentry
  omega

end Tree

/-- The volume of a list of nodes, seen from the root. -/
def Volume.ofNodes (nodes : List (Place × Tree.Node)) (h : Tree.Placed nodes) : Volume where
  tree := .ofNodes nodes
  locate := Path.place
  IsEntry := EntryName
  Covers _ := True
  kind path := Tree.Node.kind (Tree.ofNodes nodes path.place)
  names path := Tree.namesOf nodes path.place
  contents path := Tree.Node.bytes (Tree.ofNodes nodes path.place)
  answers := Tree.answersOf nodes
  entryName h := h
  covers_child _ _ := trivial
  classify_eq _ := rfl
  list_eq _ _ := rfl
  same_eq _ _ _ _ := rfl
  mem_names {path name} _ _ := by
    rw [Tree.mem_namesOf]
    constructor
    · intro hchild
      have hname := (h.of_child hchild).1
      rw [Path.place_child path hname.segment, Ne, Tree.Node.kind_eq_missing]
      exact ⟨hname, hchild⟩
    · rintro ⟨hname, hkind⟩
      rwa [Path.place_child path hname.segment, Ne, Tree.Node.kind_eq_missing] at hkind
  child_missing {path name} _ hkind hname := by
    rw [Path.place_child path hname.segment, Tree.Node.kind_eq_missing]
    by_contra hchild
    exact hkind (Tree.Node.kind_eq_directory.mpr (h.of_child hchild).2)
  finite {path} _ := by
    obtain ⟨depth, hdepth⟩ := Tree.exists_depth nodes
    refine ⟨depth, fun rel hrel hlength => ?_⟩
    rw [Path.place_below path fun name hname => (hrel name hname).segment,
      Tree.Node.kind_eq_missing]
    apply hdepth
    rw [List.length_append]
    omega
  locate_child _ hname := Path.place_child _ hname.segment
  kind_eq _ := rfl
  contents_eq {path bytes} _ hfile := by
    rw [hfile]
    rfl

end TreePlan

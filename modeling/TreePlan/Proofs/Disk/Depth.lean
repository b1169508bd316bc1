import TreePlan.Proofs.Disk.Absence

/-!
# How deep directories are

A name by which a path goes on leads one level down in the tree, or it is that of a link, and then
the path may go on anywhere. Only so many links are followed, and between two of them the path can
go no further down than the tree does (`length_add_le_of_follow`). So however the links lead in
circles, there is a number of names by which no path goes on to a directory
(`length_le_of_isDirectory`).

How far a path still leads depends on the links that are left. Where it leads does not
(`follow_or_linkLoop`): so two paths of one directory have the same entries, as far as these are
found at all (`find_child_of_find`).
-/

namespace TreePlan.Disk

variable {disk : Disk} {links : Nat} {here location : Location}

/-! ## The tree itself -/

/-- How many names lead to the deepest node. -/
def height (disk : Disk) : Nat := disk.nodes.foldr (fun entry height => max entry.1.length height) 0

theorem mem_nodes_of_node {name : Name} {node : Node}
    (h : disk.node? (name :: location) = some node) : (name :: location, node) ∈ disk.nodes := by
  obtain ⟨before, after, hnodes, -⟩ := List.lookup_eq_some_iff.mp h
  simp [hnodes]

theorem length_le_height_of_mem {entry : Location × Node} (h : entry ∈ disk.nodes) :
    entry.1.length ≤ disk.height := by
  obtain ⟨nodes⟩ := disk
  induction nodes with
  | nil => exact absurd h List.not_mem_nil
  | cons first rest ih =>
      rcases List.mem_cons.mp h with rfl | hrest
      · exact Nat.le_max_left _ _
      · exact Nat.le_trans (ih hrest) (Nat.le_max_right _ _)

theorem length_le_height {node : Node} (h : disk.node? location = some node) :
    location.length ≤ disk.height := by
  cases location with
  | nil => exact Nat.zero_le _
  | cons name above => exact length_le_height_of_mem (mem_nodes_of_node h)

theorem mem_names_of_node {name : Name} {node : Node}
    (h : disk.node? (name :: location) = some node) : name ∈ disk.names location :=
  List.mem_filterMap.mpr ⟨_, mem_nodes_of_node h, if_pos rfl⟩

/-! ## Down by names -/

/-- A step down leads to an entry, and through it if that is a link. -/
theorem exists_of_follow_into {name : Name} {rest : List Step}
    (h : disk.follow true links here (.into name :: rest) = .ok location) :
    ∃ node, disk.node? (name :: here) = some node ∧
      (disk.follow true links (name :: here) rest = .ok location ∨
        ∃ target left, links = left + 1 ∧
          disk.follow true left (startOf target here) (steps target.bytes ++ rest) =
            .ok location) := by
  have hdir := directory_of_follow h
  rw [follow_cons, move.eq_def, hdir] at h
  dsimp only at h
  by_cases hlong : maxName < name.length
  · rw [if_pos hlong] at h
    cases h
  rw [if_neg hlong] at h
  rcases hnode : disk.node? (name :: here) with _ | (_ | contents | target)
  · -- nothing has the name
    rw [hnode] at h
    cases h
  · -- a directory
    rw [hnode] at h
    exact ⟨_, rfl, .inl h⟩
  · -- a file
    rw [hnode] at h
    exact ⟨_, rfl, .inl h⟩
  · -- a link, which is followed if any may be
    rw [hnode] at h
    simp only [Bool.not_true, Bool.and_false, Bool.false_eq_true, if_false] at h
    cases links with
    | zero => cases h
    | succ left => exact ⟨_, rfl, .inr ⟨target, left, rfl, h⟩⟩

/-- **Names lead down, and links back up**: each link that is followed makes way for as many names
as the tree has levels, and for its own. -/
theorem length_add_le_of_follow {rel : List Name}
    (h : disk.follow true links here (rel.map .into) = .ok location) :
    rel.length + here.length ≤ disk.height + links * (disk.height + 1) := by
  induction rel generalizing links here with
  | nil =>
      rw [List.map_nil, follow_nil] at h
      rcases hnode : disk.node? here with _ | node
      · rw [hnode] at h
        cases h
      · have hle := length_le_height hnode
        rw [List.length_nil]
        omega
  | cons name rel ih =>
      have hhere := length_le_height (directory_of_follow h)
      obtain ⟨node, hnode, hdown | ⟨target, left, rfl, hthrough⟩⟩ := exists_of_follow_into h
      · -- one level further down on the same way
        have hle := ih hdown
        rw [List.length_cons] at hle ⊢
        omega
      · rw [List.length_cons, Nat.succ_mul]
        cases rel with
        | nil =>  -- the link ends the way
            rw [List.length_nil]
            omega
        | cons next rel =>
            -- The link is behind, wherever it has led to, and one less is left.
            have hne : (next :: rel).map Step.into ≠ [] := nofun
            rcases follow_append disk hne left (startOf target here) (steps target.bytes) with
              ⟨other, fewer, hfewer, -, hrest⟩ | ⟨cause, -, hfails⟩
            · rw [hrest] at hthrough
              have hle := ih hthrough
              have hmul := Nat.mul_le_mul_right (disk.height + 1) hfewer
              omega
            · rw [hfails] at hthrough
              cases hthrough

theorem stepsTo_below (base : Path) {rel : List Name} (hrel : ∀ n ∈ rel, NodeName n) :
    stepsTo (base.below rel) = stepsTo base ++ rel.map .into := by
  rw [stepsTo, Path.place_below base fun n hn => (hrel n hn).segment, List.map_append]
  exact congrArg _ (List.map_congr_left fun n hn => (hrel n hn).ofName_eq)

/-- **No directory is found further down** than there are levels in the tree, for each link that may
be followed and once more, wherever the way starts. -/
theorem length_le_of_isDirectory {base : Path} {rel : List Name} (hrel : ∀ n ∈ rel, NodeName n)
    (h : disk.IsDirectory here (base.below rel)) :
    rel.length ≤ disk.height + maxLinks * (disk.height + 1) := by
  obtain ⟨dir, hfind⟩ := h
  obtain ⟨hresolve, hdir⟩ := resolve_of_find hfind
  rw [resolve_of_fits (fits_of_resolve hresolve), follow_steps_iff hdir, stepsTo_below base hrel]
    at hresolve
  cases rel with
  | nil => exact Nat.zero_le _
  | cons name rel =>
      have hne : (name :: rel).map Step.into ≠ [] := nofun
      rcases follow_append disk hne maxLinks (startOf (base.below (name :: rel)) here)
        (stepsTo base) with ⟨top, left, hleft, -, hrest⟩ | ⟨cause, -, hfails⟩
      · rw [hrest] at hresolve
        have hle := length_add_le_of_follow hresolve
        have hmul := Nat.mul_le_mul_right (disk.height + 1) hleft
        omega
      · rw [hfails] at hresolve
        cases hresolve

/-! ## Two paths of one directory -/

/-- **Where steps lead does not depend on the links that are left**, only how far. -/
theorem follow_or_linkLoop {ahead : List Step}
    (h : disk.follow true links here ahead = .ok location) (other : Nat) :
    disk.follow true other here ahead = .ok location ∨
      disk.follow true other here ahead = .error .linkLoop := by
  induction links, here, ahead using follow_induction disk true generalizing other with
  | nil links here =>
      rw [follow_nil] at h ⊢
      exact .inl h
  | cons links here step rest ih =>
      rw [follow_cons] at h ⊢
      rcases disk.takes here step with ⟨_, hfails⟩ | ⟨_, hgoes⟩ | ⟨_, target, _, _, hgoes⟩
      · -- the step fails
        rw [hfails] at h
        cases h
      · -- the step meets no link
        rw [hgoes] at h ⊢
        exact ih _ _ _ (hgoes _ _ _) h other
      · -- the step meets a link
        have hmove := hgoes true links rest (.inl rfl)
        rw [hmove] at h
        rw [hgoes true other rest (.inl rfl)]
        cases links with
        | zero => cases h
        | succ links =>
            cases other with
            | zero => exact .inr rfl
            | succ other => exact ih _ _ _ hmove h other

/-- An entry that is found by one path of its directory is found by any other one, if it can be told
at all what there is. -/
theorem find_child_of_find {path other : Path} {name : Name} (hname : Segment name) {node : Node}
    {dir : Location} (hpath : disk.find here path = .ok (dir, .directory))
    (hother : disk.find here other = .ok (dir, .directory))
    (hentry : disk.find here (path.child name) = .ok (location, node)) {kind : Kind}
    (hkind : disk.classify here (other.child name) = .ok kind) :
    disk.find here (other.child name) = .ok (location, node) := by
  have htold : ∀ cause, cause ≠ .noEntry → cause ≠ .notDirectory →
      disk.find here (other.child name) ≠ .error cause := by
    intro cause hno hnot hfails
    rw [classify_of_find_error hfails hno hnot] at hkind
    cases hkind
  obtain ⟨hresolve, hnode⟩ := resolve_of_find hentry
  obtain ⟨left, hleads⟩ := exists_resolve_child hpath hname (fits_of_resolve hresolve)
  rcases fits_or_refused disk here (Path.child_ne_empty other hname) with
    hfits | ⟨cause, hno, hnot, hfails⟩
  · obtain ⟨fewer, hgoes⟩ := exists_resolve_child hother hname hfits
    rw [hleads] at hresolve
    rcases follow_or_linkLoop hresolve fewer with hfound | hloop
    · exact find_of_resolve ((hgoes true).trans hfound) hnode
    · refine absurd (find_of_resolve_error ((hgoes true).trans hloop)) (htold _ ?_ ?_)
      · decide
      · decide
  · -- the text is too long, which would have been told
    exact absurd hfails (htold cause hno hnot)

/-- An entry that is found is listed. -/
theorem mem_names_of_find {path : Path} {name : Name} (hname : NodeName name) {node : Node}
    {dir : Location} (hpath : disk.find here path = .ok (dir, .directory))
    (hentry : disk.find here (path.child name) = .ok (location, node)) :
    name ∈ disk.names dir := by
  obtain ⟨hresolve, -⟩ := resolve_of_find hentry
  obtain ⟨left, hleads⟩ := exists_resolve_child hpath hname.segment (fits_of_resolve hresolve)
  rw [hleads, hname.ofName_eq] at hresolve
  obtain ⟨found, hfound, -⟩ := exists_of_follow_into hresolve
  exact mem_names_of_node hfound

end TreePlan.Disk

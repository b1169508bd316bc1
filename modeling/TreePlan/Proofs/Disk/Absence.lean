import TreePlan.Proofs.Course.Place
import TreePlan.Proofs.Disk.Resolve

/-!
# What a disk calls missing

An entry should never be taken for missing. It is when it is a link with a file in the middle of its
target: then the file system says that something on the way is not a directory, and that answer is
read as an absence before anyone looks at the link itself. `classify_missing_iff` says that there is
no other such entry, and `blocked_of_listed` that a directory lists none.
-/

namespace TreePlan.Disk

variable {disk : Disk} {here : Location} {path : Path}

/-! ## Links that lead nowhere -/

/-- A link at the path that leads nowhere, for whatever reason. -/
structure Stranded (disk : Disk) (here : Location) (path : Path) : Prop where
  link : ∃ target, disk.itself? here path = some (.link target)
  fails : ∃ cause, disk.find here path = .error cause

/-- A link at the path on whose way something is not a directory. -/
def Blocked (disk : Disk) (here : Location) (path : Path) : Prop :=
  (∃ target, disk.itself? here path = some (.link target)) ∧
    disk.find here path = .error .notDirectory

/-- An entry that is no link is found. -/
theorem find_of_itself {node : Node} (h : disk.itself? here path = some node)
    (hnode : ∀ target, node ≠ .link target) :
    ∃ location, disk.find here path = .ok (location, node) := by
  obtain ⟨location, hresolve, hentry⟩ := itself_eq_some_iff.mp h
  refine ⟨location, find_of_resolve ?_ hentry⟩
  have hfits := fits_of_resolve hresolve
  rw [resolve_of_fits hfits] at hresolve ⊢
  refine follow_of_not_link hresolve fun target hlink => ?_
  rw [hlink] at hentry
  exact hnode target (Option.some.inj hentry).symm

theorem isDirectory_classify (h : disk.IsDirectory here path) :
    disk.classify here path = .ok .directory := by
  obtain ⟨location, hfind⟩ := h
  rw [classify, hfind]
  rfl

/-- Only a node can be found. -/
theorem classify_of_find {location : Location} {node : Node}
    (h : disk.find here path = .ok (location, node)) : disk.classify here path ≠ .ok .missing := by
  rw [classify, h]
  cases node <;> simp [Node.kind]

/-- Any other failure to reach a path is a failure to tell what is there. -/
theorem classify_of_find_error {cause : OsError} (h : disk.find here path = .error cause)
    (hno : cause ≠ .noEntry) (hnot : cause ≠ .notDirectory) :
    disk.classify here path = .error (.io path cause) := by
  rw [classify, h]
  cases cause with
  | noEntry => exact absurd rfl hno
  | notDirectory => exact absurd rfl hnot
  | entryExists | isDirectory | nameTooLong | linkLoop | nulByte | notText | other => rfl

/-- What is taken for a directory is one. -/
theorem isDirectory_of_classify (h : disk.classify here path = .ok .directory) :
    disk.IsDirectory here path := by
  -- No failure is taken for a directory, and of what is found nothing else.
  rcases hfind : disk.find here path with cause | ⟨location, node⟩
  · by_cases hnot : cause = .notDirectory
    · rw [classify, hfind, hnot] at h
      cases h
    by_cases hno : cause = .noEntry
    · rw [classify, hfind, hno] at h
      dsimp only at h
      split at h
      · split at h <;> cases h
      · cases h
    · rw [classify_of_find_error hfind hno hnot] at h
      cases h
  · rw [classify, hfind] at h
    cases node with
    | directory => exact ⟨location, hfind⟩
    | file => cases h
    | link => cases h

theorem blocked_or_fails_of_stranded (h : disk.Stranded here path) :
    disk.Blocked here path ∨ ∃ failure, disk.classify here path = .error failure := by
  obtain ⟨target, hlink⟩ := h.link
  obtain ⟨cause, hfind⟩ := h.fails
  by_cases hnot : cause = .notDirectory
  · exact .inl ⟨h.link, hnot ▸ hfind⟩
  by_cases hno : cause = .noEntry
  · -- Only here the link itself is looked at.
    obtain ⟨location, hresolve, hentry⟩ := itself_eq_some_iff.mp hlink
    refine .inr ⟨.brokenLink path, ?_⟩
    rw [classify, hfind, hno]
    simp only [hresolve, hentry]
  · exact .inr ⟨_, classify_of_find_error hfind hno hnot⟩

/-- **An entry that is taken for missing is a blocked link.** -/
theorem classify_missing_iff :
    disk.classify here path = .ok .missing ∧ disk.itself? here path ≠ none ↔
      disk.Blocked here path := by
  constructor
  · rintro ⟨hmissing, hentry⟩
    obtain ⟨node, hnode⟩ := Option.ne_none_iff_exists'.mp hentry
    have hfails : ∃ cause, disk.find here path = .error cause := by
      rcases hfind : disk.find here path with cause | ⟨location, found⟩
      · exact ⟨cause, rfl⟩
      · exact absurd hmissing (classify_of_find hfind)
    -- What is no link is found where it is.
    have hlink : ∃ target, node = .link target := by
      by_contra hnot
      obtain ⟨location, hfind⟩ := find_of_itself hnode (not_exists.mp hnot)
      exact classify_of_find hfind hmissing
    obtain ⟨target, rfl⟩ := hlink
    refine (blocked_or_fails_of_stranded ⟨⟨target, hnode⟩, hfails⟩).resolve_right ?_
    rintro ⟨failure, hfailure⟩
    rw [hmissing] at hfailure
    cases hfailure
  · rintro ⟨⟨target, hlink⟩, hfind⟩
    rw [hlink, classify, hfind]
    exact ⟨rfl, Option.some_ne_none _⟩

/-! ## Listed entries -/

/-- The names on a disk are such as an entry can have. -/
structure Named (disk : Disk) : Prop where
  segment : ∀ entry ∈ disk.nodes, ∀ name ∈ entry.1, Segment name
  special : ∀ entry ∈ disk.nodes, ∀ name ∈ entry.1,
    name ≠ [Bytes.dot] ∧ name ≠ [Bytes.dot, Bytes.dot]

instance (disk : Disk) : Decidable disk.Named :=
  decidable_of_iff
    ((∀ entry ∈ disk.nodes, ∀ name ∈ entry.1, Segment name) ∧
      ∀ entry ∈ disk.nodes, ∀ name ∈ entry.1, name ≠ [Bytes.dot] ∧ name ≠ [Bytes.dot, Bytes.dot])
    ⟨fun h => ⟨h.1, h.2⟩, fun h => ⟨h.segment, h.special⟩⟩

theorem exists_of_mem_names {location : Location} {name : Name} (h : name ∈ disk.names location) :
    ∃ node, (name :: location, node) ∈ disk.nodes := by
  unfold names at h
  obtain ⟨⟨_ | ⟨first, above⟩, node⟩, hmem, hname⟩ := List.mem_filterMap.mp h
  · cases hname
  · simp only [Option.ite_none_right_eq_some, Option.some.injEq] at hname
    obtain ⟨rfl, rfl⟩ := hname
    exact ⟨node, hmem⟩

/-- The names that an entry can have: `.` and `..` are none of them. -/
structure NodeName (name : Name) : Prop where
  segment : Segment name
  ne_dot : name ≠ [Bytes.dot]
  ne_dots : name ≠ [Bytes.dot, Bytes.dot]

theorem NodeName.ofName_eq {name : Name} (h : NodeName name) : Step.ofName name = .into name := by
  rw [Step.ofName, if_neg h.ne_dot, if_neg h.ne_dots]

theorem nodeName_of_mem_names (hnamed : disk.Named) {location : Location} {name : Name}
    (h : name ∈ disk.names location) : NodeName name := by
  obtain ⟨node, hnode⟩ := exists_of_mem_names h
  obtain ⟨hdot, hdots⟩ := hnamed.special _ hnode name List.mem_cons_self
  exact ⟨hnamed.segment _ hnode name List.mem_cons_self, hdot, hdots⟩

theorem exists_of_list {names : List Name} (h : disk.list here path = .ok names) :
    ∃ location, disk.find here path = .ok (location, .directory) ∧ names = disk.names location := by
  unfold list at h
  split at h
  · next location hfind =>
      cases h
      exact ⟨location, hfind, rfl⟩
  · cases h
  · cases h

/-- An entry by its name is at the end of the last step. -/
theorem follow_into {location : Location} {name : Name} {node : Node} (left : Nat)
    (hdir : disk.node? location = some .directory) (hshort : ¬ maxName < name.length)
    (hnode : disk.node? (name :: location) = some node) :
    disk.follow false left location [.into name] = .ok (name :: location) := by
  have hend : disk.follow false left (name :: location) [] = .ok (name :: location) := by
    rw [follow_nil, hnode]
    rfl
  rw [follow_cons, move.eq_def, hdir]
  simp only [if_neg hshort, hnode]
  rcases node with _ | _ | target
  · exact hend
  · exact hend
  · rfl

theorem ne_empty_of_find {location : Location} {node : Node}
    (h : disk.find here path = .ok (location, node)) : path ≠ .empty := by
  rintro rfl
  exact (fits_of_resolve (resolve_of_find h).1).ne_nil rfl

/-- From where a path leads to, the paths of the entries go on by their names. -/
theorem exists_resolve_child {location : Location}
    (hfind : disk.find here path = .ok (location, .directory)) {name : Name}
    (hname : Segment name) (hfits : Fits (path.child name)) :
    ∃ left, ∀ followLast, disk.resolve here followLast (path.child name) =
      disk.follow followLast left location [Step.ofName name] := by
  obtain ⟨hresolve, hdir⟩ := resolve_of_find hfind
  have hfollow : disk.follow true maxLinks (startOf path here) (stepsTo path) = .ok location := by
    rw [← follow_steps_iff hdir, ← resolve_of_fits (fits_of_resolve hresolve)]
    exact hresolve
  rcases resolve_child hname (ne_empty_of_find hfind) disk here hfits with
    ⟨dir, left, hother, hrest⟩ | ⟨cause, hcause, -⟩
  · obtain rfl : location = dir := Except.ok.inj (hfollow.symm.trans hother)
    exact ⟨left, hrest⟩
  · rw [hfollow] at hcause
    cases hcause

/-- A path that is too long, or holds a zero byte, is not looked at. -/
theorem fits_or_refused (disk : Disk) (here : Location) {path : Path} (hpath : path ≠ .empty) :
    Fits path ∨ ∃ cause, cause ≠ .noEntry ∧ cause ≠ .notDirectory ∧
      disk.find here path = .error cause := by
  by_cases hnul : path.bytes.contains 0 = true
  · refine .inr ⟨.nulByte, by decide, by decide, find_of_resolve_error ?_⟩
    rw [resolve, if_pos hnul]
  by_cases hlong : maxPath ≤ path.bytes.length
  · refine .inr ⟨.nameTooLong, by decide, by decide, find_of_resolve_error ?_⟩
    rw [resolve, if_neg hnul, if_neg (bytes_ne_nil hpath), if_pos hlong]
  · exact .inl ⟨Bool.eq_false_iff.mpr hnul, bytes_ne_nil hpath, Nat.not_le.mp hlong⟩

/-- A listed entry is there, unless its path is too long to be looked at. -/
theorem entry_of_listed (hnamed : disk.Named) {names : List Name}
    (hlist : disk.list here path = .ok names) {name : Name} (hmem : name ∈ names) :
    disk.itself? here (path.child name) ≠ none ∨
      ∃ cause, cause ≠ .noEntry ∧ cause ≠ .notDirectory ∧
        disk.find here (path.child name) = .error cause := by
  obtain ⟨location, hfind, rfl⟩ := exists_of_list hlist
  obtain ⟨node, hnode⟩ := exists_of_mem_names hmem
  obtain ⟨hresolve, hdir⟩ := resolve_of_find hfind
  have hname := nodeName_of_mem_names hnamed hmem
  by_cases hfits : Fits (path.child name)
  swap
  -- A text that is too long is refused as such.
  · have hne := Path.child_ne_empty path hname.segment
    exact .inr ((fits_or_refused disk here hne).resolve_left hfits)
  obtain ⟨left, hleads⟩ := exists_resolve_child hfind hname.segment hfits
  rw [hname.ofName_eq] at hleads
  by_cases hshort : maxName < name.length
  · -- so is a name that is too long
    refine .inr ⟨.nameTooLong, by decide, by decide, find_of_resolve_error ?_⟩
    rw [hleads, follow_cons, move.eq_def, hdir]
    simp only [if_pos hshort]
  · have hthere : (disk.node? (name :: location)).isSome = true := by
      show (disk.nodes.lookup (name :: location)).isSome = true
      exact List.lookup_isSome_iff.mpr ⟨_, hnode, beq_self_eq_true _⟩
    obtain ⟨found, hfound⟩ := Option.isSome_iff_exists.mp hthere
    have hitself : disk.itself? here (path.child name) = some found := by
      refine itself_eq_some_iff.mpr ⟨name :: location, ?_, hfound⟩
      rw [hleads, follow_into left hdir hshort hfound]
    exact .inl (hitself ▸ Option.some_ne_none found)

/-- **A listed entry that is taken for missing is a blocked link.** -/
theorem blocked_of_listed (hnamed : disk.Named) {names : List Name}
    (hlist : disk.list here path = .ok names) {name : Name} (hmem : name ∈ names)
    (hmissing : disk.classify here (path.child name) = .ok .missing) :
    disk.Blocked here (path.child name) := by
  rcases entry_of_listed hnamed hlist hmem with hentry | ⟨cause, hno, hnot, hfind⟩
  · exact classify_missing_iff.mp ⟨hmissing, hentry⟩
  · rw [classify_of_find_error hfind hno hnot] at hmissing
    cases hmissing

end TreePlan.Disk

import TreePlan.Disk.Files
import TreePlan.Proofs.Volume

/-!
# Where paths lead

A path is followed step by step, and a step fails, ends at a link, or goes on (`Disk.move`). From
that come the facts about whole paths:

* `follow_append`: what leads through further steps leads to a place to take them from;
* `follow_of_not_link`: a last component matters only where it is a link;
* `isDirectory_of_child`: what has an entry is a directory.
-/

namespace TreePlan.Disk

variable {disk : Disk} {followLast : Bool} {links : Nat} {here location : Location}

/-! ## One step -/

inductive Move where
  | fails (cause : OsError)
  /-- A link at the end, which is not followed. -/
  | ends (location : Location)
  | goes (links : Nat) (location : Location) (ahead : List Step)

/-- Follows a link, if one may still be followed. -/
def Move.through (links : Nat) (here : Location) (target : Path) (rest : List Step) : Move :=
  match links with
  | 0 => .fails .linkLoop
  | left + 1 => .goes left (startOf target here) (steps target.bytes ++ rest)

def move (disk : Disk) (followLast : Bool) (links : Nat) (here : Location) (step : Step)
    (rest : List Step) : Move :=
  match disk.node? here with
  | none => .fails .noEntry
  | some (.file _) | some (.link _) => .fails .notDirectory
  | some .directory =>
    match step with
    | .stay => .goes links here rest
    | .up => .goes links here.tail rest
    | .into name =>
      if maxName < name.length then .fails .nameTooLong
      else
        match disk.node? (name :: here) with
        | none => .fails .noEntry
        | some .directory | some (.file _) => .goes links (name :: here) rest
        | some (.link target) =>
          if rest = [] && !followLast then .ends (name :: here) else .through links here target rest

theorem follow_nil : disk.follow followLast links here [] =
    if (disk.node? here).isSome then .ok here else .error .noEntry := by rw [follow]

theorem follow_cons (step : Step) (rest : List Step) :
    disk.follow followLast links here (step :: rest) =
      match disk.move followLast links here step rest with
      | .fails cause => .error cause
      | .ends location => .ok location
      | .goes links location ahead => disk.follow followLast links location ahead := by
  rw [follow.eq_def]
  unfold move
  rcases disk.node? here with _ | (_ | _ | _)
  · rfl  -- nothing is here
  · -- a directory
    cases step with
    | stay | up => rfl
    | into name =>
        dsimp only
        by_cases hlong : maxName < name.length
        · rw [if_pos hlong, if_pos hlong]
        · rw [if_neg hlong, if_neg hlong]
          rcases disk.node? (name :: here) with _ | (_ | _ | target)
          · rfl
          · rfl
          · rfl
          · -- its entry is a link
            by_cases hlast : (rest = [] && !followLast) = true
            · simp only [if_pos hlast]
            · simp only [if_neg hlast]
              cases links <;> rfl
  · rfl  -- a file
  · rfl  -- a link

/-- All that a step can do, however many links may still be followed: fail or go on whatever is
behind it, or come to a link, which ends the way if nothing is behind it and a last link is not to
be followed. -/
inductive Takes (disk : Disk) (here : Location) (step : Step) : Prop
  | fails (cause : OsError)
      (h : ∀ followLast links rest, disk.move followLast links here step rest = .fails cause)
  | goes (location : Location)
      (h : ∀ followLast links rest,
        disk.move followLast links here step rest = .goes links location rest)
  | link (location : Location) (target : Path) (hnode : disk.node? location = some (.link target))
      (hends : ∀ links, disk.move false links here step [] = .ends location)
      (hgoes : ∀ followLast links rest, followLast = true ∨ rest ≠ [] →
        disk.move followLast links here step rest = .through links here target rest)

theorem takes (disk : Disk) (here : Location) (step : Step) : disk.Takes here step := by
  rcases hhere : disk.node? here with _ | (_ | _ | _)
  · exact .fails .noEntry fun _ _ _ => by rw [move.eq_def, hhere]
  · cases step with
    | stay => exact .goes here fun _ _ _ => by rw [move.eq_def, hhere]
    | up => exact .goes here.tail fun _ _ _ => by rw [move.eq_def, hhere]
    | into name =>
        by_cases hlong : maxName < name.length
        · exact .fails .nameTooLong fun _ _ _ => by simp only [move.eq_def, hhere, if_pos hlong]
        rcases hnode : disk.node? (name :: here) with _ | (_ | _ | target)
        · exact .fails .noEntry fun _ _ _ => by simp only [move.eq_def, hhere, if_neg hlong, hnode]
        · exact .goes (name :: here) fun _ _ _ => by
            simp only [move.eq_def, hhere, if_neg hlong, hnode]
        · exact .goes (name :: here) fun _ _ _ => by
            simp only [move.eq_def, hhere, if_neg hlong, hnode]
        · refine .link (name :: here) target hnode (fun _ => ?_)
            fun followLast _ rest hfollowed => ?_
          · simp only [move.eq_def, hhere, if_neg hlong, hnode]
            rfl
          -- The link is not the last one, or it is followed all the same.
          · have hnot : ¬ (rest = [] && !followLast) = true := by
              rcases hfollowed with rfl | hne
              · simp
              · simp [hne]
            simp only [move.eq_def, hhere, if_neg hlong, hnode, if_neg hnot]
  · exact .fails .notDirectory fun _ _ _ => by rw [move.eq_def, hhere]
  · exact .fails .notDirectory fun _ _ _ => by rw [move.eq_def, hhere]

/-- A step that is taken leaves fewer links to follow or fewer steps. -/
theorem lt_of_move {step : Step} {rest ahead : List Step} {left : Nat}
    (h : disk.move followLast links here step rest = .goes left location ahead) :
    left < links ∨ left = links ∧ ahead = rest := by
  rcases disk.takes here step with ⟨_, hfails⟩ | ⟨_, hgoes⟩ | ⟨_, target, _, hends, hgoes⟩
  · -- the step fails
    rw [hfails] at h
    cases h
  · -- it meets no link
    rw [hgoes] at h
    cases h
    exact .inr ⟨rfl, rfl⟩
  · -- it meets a link
    by_cases hfollowed : followLast = true ∨ rest ≠ []
    · rw [hgoes followLast links rest hfollowed] at h
      cases links with
      | zero => cases h
      | succ =>
          cases h
          exact .inl (Nat.lt_succ_self _)
    · obtain ⟨hlast, hrest⟩ := not_or.mp hfollowed
      rw [Bool.eq_false_iff.mpr hlast, not_not.mp hrest, hends] at h
      cases h

/-- Induction on the way that a path takes. -/
theorem follow_induction (disk : Disk) (followLast : Bool)
    {motive : Nat → Location → List Step → Prop} (nil : ∀ links here, motive links here [])
    (cons : ∀ links here step rest,
      (∀ left location ahead,
        disk.move followLast links here step rest = .goes left location ahead →
          motive left location ahead) →
        motive links here (step :: rest)) :
    ∀ links here ahead, motive links here ahead
  | links, here, [] => nil links here
  | links, here, step :: rest => cons links here step rest fun left location ahead h =>
      have := lt_of_move h
      follow_induction disk followLast nil cons left location ahead
  termination_by links _ ahead => (links, ahead.length)
  decreasing_by
    rcases this with hlt | ⟨rfl, rfl⟩
    · exact .left _ _ hlt
    · exact .right _ (Nat.lt_succ_self _)

/-! ## Whole paths -/

/-- Steps are only taken in directories. -/
theorem directory_of_follow {step : Step} {rest : List Step}
    (h : disk.follow followLast links here (step :: rest) = .ok location) :
    disk.node? here = some .directory := by
  rw [follow_cons, move.eq_def] at h
  rcases hnode : disk.node? here with _ | (_ | _ | _)
  · rw [hnode] at h
    cases h
  · rfl
  · rw [hnode] at h
    cases h
  · rw [hnode] at h
    cases h

theorem follow_stay (hnode : disk.node? here = some .directory) :
    disk.follow followLast links here [.stay] = .ok here := by
  rw [follow_cons, move.eq_def, hnode]
  dsimp only
  rw [follow_nil, hnode]
  rfl

/-- The steps behind others are taken from where those lead, with the links that are left. -/
theorem follow_append (disk : Disk) {ys : List Step} (hys : ys ≠ []) (links : Nat) (here : Location)
    (xs : List Step) :
    (∃ location left, left ≤ links ∧ disk.follow true links here xs = .ok location ∧
      ∀ followLast, disk.follow followLast links here (xs ++ ys) =
        disk.follow followLast left location ys) ∨
    ∃ cause, disk.follow true links here xs = .error cause ∧
      ∀ followLast, disk.follow followLast links here (xs ++ ys) = .error cause := by
  induction links, here, xs using follow_induction disk true with
  | nil links here =>
      obtain ⟨step, rest, rfl⟩ := List.exists_cons_of_ne_nil hys
      rw [follow_nil]
      cases hnode : disk.node? here with
      | some node => exact .inl ⟨here, links, Nat.le_refl links, rfl, fun _ => rfl⟩
      | none =>  -- the first step of `ys` fails
          refine .inr ⟨.noEntry, rfl, fun followLast => ?_⟩
          rw [List.nil_append, follow_cons, move.eq_def, hnode]
  | cons links here step rest ih =>
      have hrest : rest ++ ys ≠ [] := List.append_ne_nil_of_right_ne_nil rest hys
      simp only [List.cons_append, follow_cons]
      rcases disk.takes here step with ⟨cause, hfails⟩ | ⟨_, hgoes⟩ | ⟨_, target, _, _, hgoes⟩
      · refine .inr ⟨cause, ?_, fun followLast => ?_⟩
        · rw [hfails]
        · rw [hfails]
      · simp only [hgoes]
        exact ih _ _ _ (hgoes true links rest)
      · -- With steps behind it no link is the last one, so it is followed in any case.
        have hmove := hgoes true links rest (.inl rfl)
        have hmoves := fun followLast => hgoes followLast links (rest ++ ys) (.inr hrest)
        simp only [hmove, hmoves]
        cases links with
        | zero => exact .inr ⟨_, rfl, fun _ => rfl⟩
        | succ links =>
            have hnext := ih _ _ _ hmove
            simp only [List.append_assoc] at hnext
            refine hnext.imp_left ?_
            rintro ⟨location, left, hleft, hleads⟩
            exact ⟨location, left, Nat.le_succ_of_le hleft, hleads⟩

/-- Whether the last component is followed matters only where it is a link. -/
theorem follow_of_not_link {ahead : List Step}
    (h : disk.follow false links here ahead = .ok location)
    (hnode : ∀ target, disk.node? location ≠ some (.link target)) :
    disk.follow true links here ahead = .ok location := by
  induction links, here, ahead using follow_induction disk false with
  | nil links here =>
      rw [follow_nil] at h ⊢
      exact h
  | cons links here step rest ih =>
      rw [follow_cons] at h ⊢
      rcases disk.takes here step with ⟨_, hfails⟩ | ⟨_, hgoes⟩ | ⟨_, target, hlink, hends, hgoes⟩
      · rw [hfails] at h
        cases h
      · rw [hgoes] at h ⊢
        exact ih _ _ _ (hgoes _ _ _) h
      · by_cases hrest : rest = []
        · -- the way would end at the link
          subst hrest
          rw [hends] at h
          cases h
          exact absurd hlink (hnode target)
        · have hmove := hgoes false links rest (.inr hrest)
          rw [hmove] at h
          rw [hgoes true links rest (.inl rfl)]
          cases links with
          | zero => cases h
          | succ links => exact ih _ _ _ hmove h

/-! ## The path of an entry -/

/-- What is at the end of a path, a link there not followed. -/
def itself? (disk : Disk) (here : Location) (path : Path) : Option Node :=
  match disk.resolve here false path with
  | .ok location => disk.node? location
  | .error _ => none

theorem itself_eq_some_iff {path : Path} {node : Node} :
    disk.itself? here path = some node ↔
      ∃ location, disk.resolve here false path = .ok location ∧
        disk.node? location = some node := by
  unfold itself?
  rcases disk.resolve here false path with cause | location
  · simp
  · simp

def IsDirectory (disk : Disk) (here : Location) (path : Path) : Prop :=
  ∃ location, disk.find here path = .ok (location, .directory)

def Step.ofName (name : Name) : Step :=
  if name = [Bytes.dot] then .stay
  else if name = [Bytes.dot, Bytes.dot] then .up
  else .into name

/-- The steps of a path, without the one that a separator at its end stands for. -/
def stepsTo (path : Path) : List Step := path.place.map Step.ofName

theorem steps_eq (path : Path) :
    steps path.bytes = stepsTo path ++
      if path.bytes.getLast? = some Bytes.slash then [.stay] else [] := by
  unfold steps stepsTo Path.place Step.ofName
  split <;> simp

theorem steps_child (path : Path) {name : Name} (h : Segment name) :
    steps (path.child name).bytes = stepsTo path ++ [Step.ofName name] := by
  have hlast : (path.child name).bytes.getLast? ≠ some Bytes.slash := by
    rw [Path.bytes_child path h, List.getLast?_append, List.getLast?_eq_some_getLast h.ne_nil,
      Option.some_or]
    intro heq
    exact h.slash_notMem (List.mem_of_getLast? (heq ▸ List.getLast?_eq_some_getLast h.ne_nil))
  rw [steps_eq, if_neg hlast, List.append_nil, stepsTo, Path.place_child path h, List.map_append]
  rfl

/-- A separator at the end changes nothing about a directory. -/
theorem follow_steps_iff {path : Path} {links : Nat}
    (hnode : disk.node? location = some .directory) :
    disk.follow true links here (steps path.bytes) = .ok location ↔
      disk.follow true links here (stepsTo path) = .ok location := by
  rw [steps_eq]
  split
  · -- the step that is left over only asks for a directory
    rcases follow_append disk (List.cons_ne_nil Step.stay []) links here (stepsTo path) with
      ⟨other, left, -, hother, hrest⟩ | ⟨cause, hcause, hrest⟩
    · rw [hother, hrest]
      constructor
      · intro h
        rwa [follow_stay (directory_of_follow h)] at h
      · intro h
        cases h
        exact follow_stay hnode
    · rw [hcause, hrest]
  · rw [List.append_nil]

/-- A path that the file system looks at. -/
structure Fits (path : Path) : Prop where
  noNul : path.bytes.contains 0 = false
  ne_nil : path.bytes ≠ []
  short : path.bytes.length < maxPath

instance (path : Path) : Decidable (Fits path) :=
  decidable_of_iff
    (path.bytes.contains 0 = false ∧ path.bytes ≠ [] ∧ path.bytes.length < maxPath)
    ⟨fun h => ⟨h.1, h.2.1, h.2.2⟩, fun h => ⟨h.noNul, h.ne_nil, h.short⟩⟩

theorem resolve_of_fits {path : Path} (h : Fits path) :
    disk.resolve here followLast path =
      disk.follow followLast maxLinks (startOf path here) (steps path.bytes) := by
  rw [resolve, h.noNul, if_neg Bool.false_ne_true, if_neg h.ne_nil, if_neg (Nat.not_le.mpr h.short)]

theorem fits_of_resolve {path : Path} (h : disk.resolve here followLast path = .ok location) :
    Fits path := by
  unfold resolve at h
  split at h
  · cases h
  split at h
  · cases h
  split at h
  · cases h
  · next hnul hnil hlong => exact ⟨Bool.eq_false_iff.mpr hnul, hnil, Nat.not_le.mp hlong⟩

theorem find_of_resolve {path : Path} {node : Node}
    (h : disk.resolve here true path = .ok location) (hnode : disk.node? location = some node) :
    disk.find here path = .ok (location, node) := by
  rw [find, h]
  simp only [bind, Except.bind, hnode]

theorem find_of_resolve_error {path : Path} {cause : OsError}
    (h : disk.resolve here true path = .error cause) : disk.find here path = .error cause := by
  rw [find, h]
  rfl

theorem resolve_of_find {path : Path} {node : Node}
    (h : disk.find here path = .ok (location, node)) :
    disk.resolve here true path = .ok location ∧ disk.node? location = some node := by
  rcases hresolve : disk.resolve here true path with cause | other
  · rw [find_of_resolve_error hresolve] at h
    cases h
  · rcases hnode : disk.node? other with _ | found
    · have hmissing : disk.find here path = .error .noEntry := by
        rw [find, hresolve]
        simp only [bind, Except.bind, hnode]
      rw [hmissing] at h
      cases h
    · rw [find_of_resolve hresolve hnode] at h
      cases h
      exact ⟨rfl, hnode⟩

/-- The path of an entry starts with that of the directory. -/
theorem prefix_child (path : Path) {name : Name} (hname : Segment name) :
    path.bytes <+: (path.child name).bytes := by
  rw [Path.bytes_child path hname, Path.stem]
  split
  · exact List.prefix_append _ _
  · rw [List.append_assoc]
    exact List.prefix_append _ _

theorem bytes_ne_nil {path : Path} (hpath : path ≠ .empty) : path.bytes ≠ [] :=
  fun h => hpath (congrArg Path.mk h)

section
variable {path : Path} {name : Name} (hname : Segment name) (hpath : path ≠ .empty)
include hname hpath

theorem startOf_child : startOf (path.child name) here = startOf path here := by
  obtain ⟨rest, hrest⟩ := prefix_child path hname
  have hhead : (path.child name).bytes.head? = path.bytes.head? := by
    rw [← hrest, List.head?_append_of_ne_nil _ (bytes_ne_nil hpath)]
  rw [startOf, startOf, Path.isAbsolute, Path.isAbsolute, hhead]

theorem Fits.of_child (h : Fits (path.child name)) : Fits path where
  noNul := by
    have hnot := h.noNul
    rw [Bool.eq_false_iff, ne_eq, List.contains_iff_mem] at hnot ⊢
    exact fun hmem => hnot ((prefix_child path hname).subset hmem)
  ne_nil := bytes_ne_nil hpath
  short := Nat.lt_of_le_of_lt (prefix_child path hname).length_le h.short

/-- **The path of an entry** leads to the directory first, and then on by the name. -/
theorem resolve_child (disk : Disk) (here : Location) (h : Fits (path.child name)) :
    (∃ dir left, disk.follow true maxLinks (startOf path here) (stepsTo path) = .ok dir ∧
      ∀ followLast, disk.resolve here followLast (path.child name) =
        disk.follow followLast left dir [Step.ofName name]) ∨
    ∃ cause, disk.follow true maxLinks (startOf path here) (stepsTo path) = .error cause ∧
      ∀ followLast, disk.resolve here followLast (path.child name) = .error cause := by
  simp only [resolve_of_fits h, startOf_child hname hpath, steps_child path hname]
  refine (follow_append disk (List.cons_ne_nil _ _) _ _ _).imp_left ?_
  rintro ⟨dir, left, -, hdir, hrest⟩
  exact ⟨dir, left, hdir, hrest⟩

/-- **What has an entry is a directory.** -/
theorem isDirectory_of_child (h : disk.resolve here followLast (path.child name) = .ok location) :
    disk.IsDirectory here path := by
  have hfits := fits_of_resolve h
  rcases resolve_child hname hpath disk here hfits with
    ⟨dir, left, hdir, hrest⟩ | ⟨cause, -, hcause⟩
  · rw [hrest] at h
    have hnode : disk.node? dir = some .directory := directory_of_follow h
    refine ⟨dir, ?_⟩
    refine find_of_resolve ?_ hnode
    rw [resolve_of_fits (hfits.of_child hname hpath)]
    exact (follow_steps_iff hnode).mpr hdir
  · rw [hcause] at h
    cases h

end

/-- What has anything below it is a directory. -/
theorem isDirectory_of_below {path : Path} (hpath : path ≠ .empty) {rel : List Name}
    (hrel : ∀ n ∈ rel, Segment n) (h : disk.IsDirectory here (path.below rel)) :
    disk.IsDirectory here path := by
  induction rel using List.reverseRecOn with
  | nil => exact h
  | append_singleton rel name ih =>
      have hfront : ∀ n ∈ rel, Segment n := fun n hn => hrel n (List.mem_append_left _ hn)
      rw [Path.below_concat] at h
      obtain ⟨location, hfind⟩ := h
      exact ih hfront (isDirectory_of_child (hrel name (by simp)) (Path.below_ne_empty hpath hfront)
        (resolve_of_find hfind).1)

/-! ## Following within a bound -/

/-- Follows steps as `follow` does, but at most `fuel` of them. -/
def followFor (disk : Disk) (followLast : Bool) : (fuel links : Nat) → Location → List Step →
    Option (Except OsError Location)
  | 0, _, _, _ => none
  | _ + 1, _, here, [] => some (if (disk.node? here).isSome then .ok here else .error .noEntry)
  | fuel + 1, links, here, step :: rest =>
    match disk.move followLast links here step rest with
    | .fails cause => some (.error cause)
    | .ends location => some (.ok location)
    | .goes left location ahead => disk.followFor followLast fuel left location ahead

theorem follow_of_followFor {disk : Disk} {followLast : Bool} {fuel links : Nat} {here : Location}
    {ahead : List Step} {result : Except OsError Location}
    (h : disk.followFor followLast fuel links here ahead = some result) :
    disk.follow followLast links here ahead = result := by
  induction fuel generalizing links here ahead with
  | zero => cases h
  | succ fuel ih =>
      cases ahead with
      | nil =>
          rw [follow_nil]
          exact Option.some.inj h
      | cons step rest =>
          rw [followFor] at h
          rw [follow_cons]
          cases hmove : disk.move followLast links here step rest with
          | fails | ends =>
              rw [hmove] at h
              exact Option.some.inj h
          | goes =>
              rw [hmove] at h
              exact ih h

theorem resolve_of_followFor {disk : Disk} {here : Location} {followLast : Bool} {path : Path}
    {result : Except OsError Location} (fuel : Nat) (hfits : Fits path)
    (h : disk.followFor followLast fuel maxLinks (startOf path here) (steps path.bytes) =
      some result) : disk.resolve here followLast path = result :=
  (resolve_of_fits hfits).trans (follow_of_followFor h)

end TreePlan.Disk

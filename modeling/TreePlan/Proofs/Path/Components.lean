import Mathlib.Data.List.DropRight
import TreePlan.Proofs.Path.Below

/-!
# Components of paths

Two texts with the same components name the same node, and the components of a path that is made
out of others are known from theirs:

* `components_join`: below a path come the names of what is joined to it;
* `components_directory`: the directory of a path has its components, the last one left out;
* `sameAs_join`: it makes no difference to a path which of two texts with the same components it is
  taken from.
-/

namespace TreePlan.Path

/-! ## Pieces -/

theorem pieces_append_slash (a b : Bytes) :
    pieces (a ++ Bytes.slash :: b) = pieces a ++ pieces b :=
  List.splitOn_append_cons_self a b

theorem pieces_of_notMem {name : Bytes} (h : Bytes.slash ∉ name) : pieces name = [name] :=
  List.splitOn_eq_singleton h

/-- A text up to its first separator, which is its first piece, and what follows. -/
theorem exists_first (bs : Bytes) : ∃ first tail more,
    bs = first ++ tail ∧ Bytes.slash ∉ first ∧ EndsName tail ∧ pieces bs = first :: more := by
  by_cases hmem : Bytes.slash ∈ bs
  · obtain ⟨first, later, rfl, hfirst⟩ := List.eq_append_cons_of_mem hmem
    refine ⟨first, Bytes.slash :: later, pieces later, rfl, hfirst, by simp [EndsName], ?_⟩
    rw [pieces_append_slash, pieces_of_notMem hfirst, List.singleton_append]
  · exact ⟨bs, [], [], (List.append_nil bs).symm, hmem, by simp [EndsName], pieces_of_notMem hmem⟩

theorem slash_notMem_of_mem_pieces {bs piece : Bytes} (h : piece ∈ pieces bs) :
    Bytes.slash ∉ piece := by
  induction hlength : bs.length using Nat.strongRecOn generalizing bs with
  | _ n ih =>
      subst hlength
      -- What is behind the first separator is shorter, and the pieces are those of it and one
      -- more.
      by_cases hmem : Bytes.slash ∈ bs
      · obtain ⟨first, later, rfl, hfirst⟩ := List.eq_append_cons_of_mem hmem
        rw [pieces_append_slash, pieces_of_notMem hfirst, List.mem_append,
          List.mem_singleton] at h
        rcases h with rfl | h
        · exact hfirst
        · exact ih later.length (by simp; omega) h rfl
      · rw [pieces_of_notMem hmem, List.mem_singleton] at h
        exact h ▸ hmem

theorem EndsName.append {tail more : Bytes} (h : EndsName tail)
    (hmore : tail = [] → EndsName more) : EndsName (tail ++ more) := by
  cases tail with
  | nil => exact hmore rfl
  | cons c tail => exact h

theorem intercalate_slash_cons_cons (first next : Bytes) (parts : List Bytes) :
    [Bytes.slash].intercalate (first :: next :: parts) =
      first ++ Bytes.slash :: [Bytes.slash].intercalate (next :: parts) := by
  rw [List.intercalate_cons_cons, List.append_assoc, List.singleton_append]

/-- Written out after each other, pieces end where the next separator is. -/
theorem exists_intercalate_cons (first : Bytes) (parts : List Bytes) :
    ∃ tail, [Bytes.slash].intercalate (first :: parts) = first ++ tail ∧ EndsName tail := by
  cases parts with
  | nil => exact ⟨[], by rw [List.intercalate_singleton, List.append_nil], by simp [EndsName]⟩
  | cons next parts => exact ⟨_, intercalate_slash_cons_cons first next parts, by simp [EndsName]⟩

/-! ## The names in a text -/

/-- The names in a text: its pieces, those left out that name nothing new. -/
def names (bs : Bytes) : List Name := (pieces bs).filter fun piece => !isIdle piece

theorem names_append_slash (a b : Bytes) : names (a ++ Bytes.slash :: b) = names a ++ names b := by
  rw [names, pieces_append_slash, List.filter_append]
  rfl

theorem names_intercalate {parts : List Bytes} (h : ∀ piece ∈ parts, Bytes.slash ∉ piece) :
    names ([Bytes.slash].intercalate parts) = parts.filter fun piece => !isIdle piece := by
  by_cases hnil : parts = []
  · -- Nothing is written, which is read back as one empty piece, and that is idle.
    subst hnil
    rfl
  · rw [names, pieces, List.splitOn_intercalate Bytes.slash h hnil]

/-- A separator at the end of a text says nothing new. -/
theorem names_stem_append (base : Path) (bs : Bytes) :
    names (base.stem ++ bs) = names base.bytes ++ names bs := by
  unfold stem
  split
  · next hbytes =>
    rcases hbytes with hnil | hslash
    · -- nothing to come behind
      rw [hnil]
      rfl
    · -- the separator is there already
      obtain ⟨xs, hxs⟩ := List.getLast?_eq_some_iff.mp hslash
      have hend : names (xs ++ [Bytes.slash]) = names xs ++ [] := names_append_slash xs []
      rw [hxs, hend, List.append_nil, List.append_assoc, List.singleton_append, names_append_slash]
  · -- one separator comes in between
    rw [List.append_assoc, List.singleton_append, names_append_slash]

/-! ## Where a path starts -/

/-- What a text starts with, by its first piece. -/
def startOf (first : Bytes) : Start :=
  if first = [] then .root else if first = [Bytes.dot] then .dot else .here

theorem startOf_eq_here_iff {first : Bytes} : startOf first = .here ↔ isIdle first = false := by
  by_cases hnil : first = []
  · simp [startOf, isIdle, hnil]
  · by_cases hdot : first = [Bytes.dot] <;> simp [startOf, isIdle, hnil, hdot]

theorem split_cons (c : UInt8) (rest : Bytes) :
    split ⟨c :: rest⟩ =
      if c = Bytes.slash then (.root, rest)
      else if c = Bytes.dot && (rest = [] || rest.head? = some Bytes.slash) then (.dot, rest)
      else (.here, c :: rest) := rfl

theorem start_eq {first tail : Bytes} (hfirst : Bytes.slash ∉ first) (htail : EndsName tail)
    (h : first ++ tail ≠ []) : (split ⟨first ++ tail⟩).1 = startOf first := by
  cases first with
  | nil =>  -- the text starts with a separator
      cases tail with
      | nil => exact absurd rfl h
      | cons c tail =>
          obtain rfl : c = Bytes.slash := htail c rfl
          rfl
  | cons c first =>
      rw [List.mem_cons, not_or] at hfirst
      have hslash : c ≠ Bytes.slash := Ne.symm hfirst.1
      rw [List.cons_append, split_cons, if_neg hslash, startOf, if_neg (List.cons_ne_nil c first)]
      cases first with
      | nil =>  -- one byte, which may be the dot
          have hend : (tail = [] || tail.head? = some Bytes.slash) = true := by
            cases tail with
            | nil => rfl
            | cons d tail => simp [htail d rfl]
          by_cases hdot : c = Bytes.dot <;> simp [hdot, hend]
      | cons d first =>
          have hd : d ≠ Bytes.slash := fun heq => hfirst.2 (heq ▸ List.mem_cons_self)
          simp [hd]

/-- The text of a path is its start and the rest; a `.` at the front is a piece by itself. -/
theorem bytes_eq_split (p : Path) :
    p.bytes = p.split.1.bytes ++ p.split.2 ∧ (p.split.1 = .dot → EndsName p.split.2) := by
  obtain ⟨_ | ⟨a, rest⟩⟩ := p
  · -- the empty path
    exact ⟨rfl, fun h => Start.noConfusion h⟩
  by_cases hslash : a = Bytes.slash
  · rw [split_cons, if_pos hslash]
    exact ⟨by simp [Start.bytes, hslash], fun h => Start.noConfusion h⟩
  rw [split_cons, if_neg hslash]
  by_cases hdot : (a = Bytes.dot && (rest = [] || rest.head? = some Bytes.slash)) = true
  · rw [if_pos hdot]
    simp only [Bool.and_eq_true, Bool.or_eq_true, decide_eq_true_eq] at hdot
    refine ⟨by simp [Start.bytes, hdot.1], fun _ => ?_⟩
    rcases hdot.2 with rfl | hhead
    · simp [EndsName]
    · simp [EndsName, hhead]
  · -- the first piece is a name
    rw [if_neg hdot]
    exact ⟨rfl, fun h => Start.noConfusion h⟩

theorem names_start_append {start : Start} {rest : Bytes} (h : start = .dot → EndsName rest) :
    names (start.bytes ++ rest) = names rest := by
  cases start with
  | here => rfl
  | root => exact names_append_slash [] rest
  | dot =>
      cases rest with
      | nil => rfl
      | cons c rest =>
          obtain rfl : c = Bytes.slash := h rfl c rfl
          exact (names_append_slash [Bytes.dot] rest).trans (names_append_slash [] rest).symm

theorem components_eq (p : Path) : p.components = (p.split.1, names p.bytes) := by
  obtain ⟨hbytes, hdot⟩ := bytes_eq_split p
  rw [hbytes, names_start_append hdot]
  rfl

/-- Only the empty path has no components at all. -/
theorem components_eq_nil_iff {p : Path} : p.components = (.here, []) ↔ p.bytes = [] := by
  constructor
  · intro h
    obtain ⟨first, tail, more, hbytes, hfirst, htail, hpieces⟩ := exists_first p.bytes
    obtain ⟨hstart, hnames⟩ := Prod.mk.inj ((components_eq p).symm.trans h)
    by_contra hne
    have hhere : startOf first = .here := by
      rw [← start_eq hfirst htail (hbytes ▸ hne), ← hbytes]
      exact hstart
    have hkept : (!isIdle first) = true := by
      rw [startOf_eq_here_iff.mp hhere]
      rfl
    rw [names, hpieces, List.filter_cons, if_pos hkept] at hnames
    exact List.cons_ne_nil _ _ hnames
  · intro h
    rw [show p = ⟨[]⟩ from congrArg Path.mk h]
    rfl

/-! ## Joined paths -/

theorem start_join {base name : Path} (hbase : base.bytes ≠ []) (hname : name.isAbsolute = false) :
    (base.join name).split.1 = base.split.1 := by
  obtain ⟨first, tail, -, hbytes, hfirst, htail, -⟩ := exists_first base.bytes
  have hstem : ∃ more, base.stem = base.bytes ++ more ∧
      (tail = [] → EndsName (more ++ name.bytes)) := by
    by_cases hslash : base.bytes.getLast? = some Bytes.slash
    · -- the base ends in a separator, so its first piece has ended
      refine ⟨[], by simp [stem, hslash], ?_⟩
      rintro rfl
      rw [hbytes, List.append_nil] at hslash
      exact absurd (List.mem_of_getLast? hslash) hfirst
    · -- the separator in between ends the first piece
      exact ⟨[Bytes.slash], by simp [stem, hbase, hslash], fun _ => by simp [EndsName]⟩
  obtain ⟨more, hstem, hmore⟩ := hstem
  have hjoin : base.join name = ⟨first ++ (tail ++ (more ++ name.bytes))⟩ := by
    rw [join_eq hname, hstem, hbytes, List.append_assoc, List.append_assoc]
  have hne : first ++ tail ≠ [] := hbytes ▸ hbase
  have hlong : first ++ (tail ++ (more ++ name.bytes)) ≠ [] := by
    rw [← List.append_assoc]
    exact List.append_ne_nil_of_left_ne_nil hne _
  have hstart : base.split.1 = startOf first := by
    rw [← start_eq hfirst htail hne, ← hbytes]
  rw [hjoin, start_eq hfirst (htail.append hmore) hlong, hstart]

/-- Below a path come the names of what is joined to it. -/
theorem components_join {base name : Path} (hbase : base.bytes ≠ [])
    (hname : name.isAbsolute = false) :
    (base.join name).components = (base.components.1, base.components.2 ++ name.components.2) := by
  rw [components_eq, components_eq, components_eq, start_join hbase hname, join_eq hname,
    names_stem_append]

theorem sameAs_iff {p q : Path} : p.sameAs q = true ↔ p.components = q.components :=
  decide_eq_true_iff

/-- Of two texts with the same components, either can be taken as the base. -/
theorem sameAs_join {base other : Path} (h : base.sameAs other = true) (name : Path) :
    (base.join name).sameAs (other.join name) = true := by
  rw [sameAs_iff] at h ⊢
  cases hname : name.isAbsolute with
  | true => rw [join_of_isAbsolute hname, join_of_isAbsolute hname]
  | false =>
      have hnil : base.bytes = [] ↔ other.bytes = [] := by
        rw [← components_eq_nil_iff, ← components_eq_nil_iff, h]
      by_cases hbase : base.bytes = []
      · rw [show base = other from congrArg Path.mk (hbase.trans (hnil.mp hbase).symm)]
      · rw [components_join hbase hname, components_join (mt hnil.mpr hbase) hname, h]

/-! ## The directory of a path -/

theorem filter_dropIdle (parts : List Bytes) :
    ((dropIdle parts).filter fun piece => !isIdle piece) =
      parts.filter fun piece => !isIdle piece := by
  have hidle : ((parts.rtakeWhile isIdle).filter fun piece => !isIdle piece) = [] := by
    rw [List.filter_eq_nil_iff]
    intro piece hpiece
    simp [List.mem_rtakeWhile_imp hpiece]
  have happend : dropIdle parts ++ parts.rtakeWhile isIdle = parts :=
    List.rdropWhile_append_rtakeWhile
  rw [← congrArg (List.filter _) happend, List.filter_append, hidle, List.append_nil]

/-- The last piece that is left is a name. -/
theorem filter_dropLast_dropIdle (parts : List Bytes) :
    ((dropIdle parts).dropLast.filter fun piece => !isIdle piece) =
      (parts.filter fun piece => !isIdle piece).dropLast := by
  rw [← filter_dropIdle parts]
  by_cases hnil : dropIdle parts = []
  · rw [hnil]
    rfl
  · have hlast : ¬ isIdle ((dropIdle parts).getLast hnil) = true :=
      List.rdropWhile_last_not isIdle parts hnil
    obtain ⟨front, last, hconcat⟩ := (List.eq_nil_or_concat _).resolve_left hnil
    rw [List.concat_eq_append] at hconcat
    simp only [hconcat, List.getLast_concat] at hlast
    simp [hconcat, List.filter_append, hlast]

/-- Of the pieces of a text that follows a name, those at the front follow one as well. -/
theorem endsName_intercalate {bs : Bytes} {kept : List Bytes} (hkept : kept <+: pieces bs)
    (h : EndsName bs) : EndsName ([Bytes.slash].intercalate kept) := by
  have hfirst : ∃ more, pieces bs = [] :: more := by
    cases bs with
    | nil => exact ⟨[], rfl⟩
    | cons c bs =>
        obtain rfl : c = Bytes.slash := h c rfl
        exact ⟨pieces bs, pieces_append_slash [] bs⟩
  obtain ⟨more, hfirst⟩ := hfirst
  cases kept with
  | nil => simp [EndsName]
  | cons first kept =>
      rw [hfirst, List.cons_prefix_cons] at hkept
      obtain ⟨tail, htail, hends⟩ := exists_intercalate_cons first kept
      rw [htail, hkept.1]
      exact hends

theorem start_intercalate {bs : Bytes} {kept : List Bytes} (hkept : kept <+: pieces bs)
    (hne : bs ≠ []) (h : (split ⟨bs⟩).1 = .here) :
    (split ⟨[Bytes.slash].intercalate kept⟩).1 = .here := by
  cases kept with
  | nil => rfl
  | cons first kept =>
      obtain ⟨piece, tail, more, rfl, hpiece, htail, hpieces⟩ := exists_first bs
      rw [hpieces, List.cons_prefix_cons] at hkept
      obtain ⟨other, hother, hends⟩ := exists_intercalate_cons first kept
      rw [start_eq hpiece htail hne] at h
      have hname : piece ≠ [] := by
        rintro rfl
        cases h
      rw [hother, hkept.1, start_eq hpiece hends (List.append_ne_nil_of_left_ne_nil hname other), h]

theorem start_append {start : Start} {rest : Bytes} (hdot : start = .dot → EndsName rest)
    (hhere : start = .here → (split ⟨rest⟩).1 = .here) :
    (split ⟨start.bytes ++ rest⟩).1 = start := by
  cases start with
  | here => exact hhere rfl
  | root => rfl
  | dot => exact start_eq (by decide) (hdot rfl) (List.cons_ne_nil _ _)

/-- The directory of a path has its components, the last one left out. -/
theorem components_directory {p : Path} (h : p.components.2 ≠ []) :
    p.directory.components = (p.components.1, p.components.2.dropLast) := by
  obtain ⟨hbytes, hdot⟩ := bytes_eq_split p
  obtain ⟨start, hstart⟩ : ∃ start, p.split.1 = start := ⟨_, rfl⟩
  obtain ⟨rest, hrest⟩ : ∃ rest, p.split.2 = rest := ⟨_, rfl⟩
  obtain ⟨kept, hkept⟩ : ∃ kept, dropIdle (dropIdle (pieces rest)).dropLast = kept := ⟨_, rfl⟩
  rw [hstart, hrest] at hbytes hdot
  -- Pieces were dropped at the end alone.
  have hfront : kept <+: pieces rest := by
    subst hkept
    exact ((List.rdropWhile_prefix isIdle _).trans (List.dropLast_prefix _)).trans
      (List.rdropWhile_prefix isIdle _)
  have hnames : names rest ≠ [] := by
    rwa [components, hrest] at h
  have hsome : dropIdle (pieces rest) ≠ [] := by
    intro hnil
    rw [names, ← filter_dropIdle, hnil] at hnames
    exact hnames rfl
  have hdirectory : p.directory = ⟨start.bytes ++ [Bytes.slash].intercalate kept⟩ := by
    rw [directory, parent?, hstart, hrest, hkept]
    simp [hsome]
  have hends : start = .dot → EndsName ([Bytes.slash].intercalate kept) := fun heq =>
    endsName_intercalate hfront (hdot heq)
  have hhere : start = .here → (split ⟨[Bytes.slash].intercalate kept⟩).1 = .here := by
    rintro rfl
    refine start_intercalate hfront (fun hnil => hnames (congrArg names hnil)) ?_
    rw [← hstart]
    exact congrArg (fun q => (split q).1) (congrArg Path.mk hbytes.symm)
  have hfree : ∀ piece ∈ kept, Bytes.slash ∉ piece := fun piece hpiece =>
    slash_notMem_of_mem_pieces (hfront.subset hpiece)
  rw [hdirectory, components_eq, start_append hends hhere, names_start_append hends,
    names_intercalate hfree, ← hkept, filter_dropIdle, filter_dropLast_dropIdle, components, hstart,
    hrest]

end TreePlan.Path

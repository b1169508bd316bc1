import TreePlan.Proofs.Forest.Outcome
import TreePlan.Proofs.Metadata
import TreePlan.Proofs.Tour
import TreePlan.Proofs.Volume

/-!
# The order of the visits

A walk over a forest visits the union of its two trees in pre-order: every place before what is
below it, and the children of a place in the order of their names. `Preorder` says this by the
shape of the tree; `places` is the list itself.

* `tour_eq_map_places`: the walk takes this way, although it asks nothing about the sides that it
  knows to be missing;
* `mem_places`: the places are those that exist on either side, and the pair itself;
* `visits_are_preorder`: so the log of a walk is this pre-order, whatever the order of the listings.
-/

namespace TreePlan

/-- The list holds the place `rel` and all below it, each before what is below it, where the names
of the children of a place are given in order. -/
inductive Preorder (children : List Name → List Name) : List Name → List (List Name) → Prop
  | node {rel : List Name} {below : Name → List (List Name)}
      (h : ∀ name ∈ children rel, Preorder children (rel ++ [name]) (below name)) :
      Preorder children rel (rel :: (children rel).flatMap below)

/-- The file system lists the same names as `answers` do, but maybe in another order, which may
change, or repeatedly. Anything else it answers in the same way. -/
def Relists {σ : Type} (answers : (q : Query) → Except Failure q.Answer) (fs : FileSystem σ) : Prop :=
  ∀ query files, SameAnswer { metadataNames := [] } query (answers query) (fs.answer query files).1

namespace Forest

variable {forest : Forest} {rules : Rules} {pair : Pair} {depth : Nat} {rel : List Name}

/-- The places of the union of both sides, at most `depth` levels down, in pre-order. -/
def places (forest : Forest) (rules : Rules) : (depth : Nat) → Pair → List (List Name)
  | 0, _ => []
  | depth + 1, pair =>
    [] :: (forest.childNames rules pair).flatMap fun name =>
      (places forest rules depth (pair.child name)).map (name :: ·)

def stopAt (forest : Forest) (pair : Pair) (rel : List Name) : Stop :=
  ⟨rel, forest.kind (pair.below rel).source, forest.kind (pair.below rel).destination⟩

/-! ## The walk goes from place to place -/

theorem kindFound_eq {gone : Bool} {path : Path} (h : forest.Covers path)
    (hgone : gone = true → forest.kind path = .missing) :
    kindFound forest.answers gone path = forest.kind path := by
  cases gone with
  | true => exact (hgone rfl).symm
  | false =>
      rw [kindFound, if_neg Bool.false_ne_true, forest.classify_eq h]
      rfl

theorem childrenFound_eq (h : forest.CoversPair pair) :
    childrenFound forest.answers rules pair (forest.kind pair.source)
      (forest.kind pair.destination) = forest.childNames rules pair := by
  have hnames : ∀ {path}, forest.Covers path → namesFound forest.answers (forest.kind path) path =
      if forest.kind path = .directory then forest.names path else [] := by
    intro path hpath
    unfold namesFound
    split
    · next hdir =>
      rw [forest.list_eq hpath hdir]
      rfl
    · rfl
  rw [childrenFound, hnames h.source, hnames h.destination]
  rfl

/-- **The tour of a walk goes through the places**, and finds there what is there. -/
theorem tour_eq_map_places {sourceGone destinationGone : Bool} (h : forest.CoversPair pair)
    (hs : sourceGone = true → forest.kind pair.source = .missing)
    (hd : destinationGone = true → forest.kind pair.destination = .missing) :
    tour forest.answers rules depth pair sourceGone destinationGone =
      (forest.places rules depth pair).map (forest.stopAt pair) := by
  induction depth generalizing pair sourceGone destinationGone with
  | zero => rfl
  | succ depth ih =>
      rw [tour, kindFound_eq h.source hs, kindFound_eq h.destination hd, childrenFound_eq h, places,
        List.map_cons, List.map_flatMap]
      refine congrArg (_ :: ·) (List.flatMap_congr fun name hname => ?_)
      obtain ⟨⟨hentry, -⟩, -⟩ := (mem_childNames h).mp hname
      -- A side that is not a directory has nothing below it, so it need not be asked about.
      have hs' := fun hgone => forest.child_missing h.source (bne_iff_ne.mp hgone) hentry
      have hd' := fun hgone => forest.child_missing h.destination (bne_iff_ne.mp hgone) hentry
      rw [ih (h.child hentry) hs' hd', List.map_map, List.map_map]
      rfl

/-! ## The places -/

theorem mem_places_succ :
    rel ∈ forest.places rules (depth + 1) pair ↔
      rel = [] ∨ ∃ name ∈ forest.childNames rules pair,
        ∃ rest ∈ forest.places rules depth (pair.child name), rel = name :: rest := by
  simp only [places, List.mem_cons, List.mem_flatMap, List.mem_map, eq_comm]

theorem pairwise_places (h : forest.CoversPair pair) (depth : Nat) :
    (forest.places rules depth pair).Pairwise (· < ·) := by
  have hgone : ∀ {path}, false = true → forest.kind path = .missing :=
    fun hgone => absurd hgone Bool.false_ne_true
  have htour := pairwise_tour forest.answers rules depth pair false false
  rwa [tour_eq_map_places h hgone hgone, List.map_map, show Stop.rel ∘ forest.stopAt pair = id from rfl,
    List.map_id] at htour

/-- **The places are those that exist on either side**, names that are passed over left out, and the
pair itself. -/
theorem mem_places (h : forest.CoversPair pair) (hdepth : forest.Shallow depth pair) :
    rel ∈ forest.places rules (depth + 1) pair ↔
      forest.Plain rules rel ∧ (rel = [] ∨ forest.kind (pair.below rel).source ≠ .missing ∨
        forest.kind (pair.below rel).destination ≠ .missing) := by
  induction depth generalizing pair rel with
  | zero =>
      constructor
      · intro hmem
        obtain rfl : rel = [] := by simpa [places] using hmem
        exact ⟨plain_nil, .inl rfl⟩
      · rintro ⟨hrel, hexists⟩
        obtain ⟨hs, hd⟩ := hdepth rel hrel.isEntry (Nat.zero_le _)
        rw [hexists.resolve_right fun hkind => hkind.elim (absurd hs) (absurd hd)]
        exact List.mem_cons_self
  | succ depth ih =>
      rw [mem_places_succ]
      cases rel with
      | nil => simp
      | cons name rest =>
          constructor
          · rintro (⟨⟨⟩⟩ | ⟨name, hname, rest, hrest, ⟨⟩⟩)
            obtain ⟨hplain, hexists⟩ := (mem_childNames h).mp hname
            obtain ⟨hrel, hbelow⟩ :=
              (ih (h.child hplain.1) (hdepth.child hplain.1)).mp hrest
            refine ⟨plain_cons.mpr ⟨hplain, hrel⟩, .inr ?_⟩
            rcases hbelow with rfl | hkind
            · exact hexists
            · exact hkind
          · rintro ⟨hplain, hexists⟩
            obtain ⟨hname, hrest⟩ := plain_cons.mp hplain
            have hkind := hexists.resolve_left (List.cons_ne_nil _ _)
            -- What exists is below an entry of one side.
            have hchild : forest.kind (pair.source.child name) ≠ .missing ∨
                forest.kind (pair.destination.child name) ≠ .missing :=
              hkind.imp (kind_child_of_below h.source hname.1 hrest.isEntry)
                (kind_child_of_below h.destination hname.1 hrest.isEntry)
            refine .inr ⟨name, (mem_childNames h).mpr ⟨hname, hchild⟩, rest, ?_, rfl⟩
            exact (ih (h.child hname.1) (hdepth.child hname.1)).mpr ⟨hrest, .inr hkind⟩

theorem map_places_succ (depth : Nat) (pair : Pair) (rel : List Name) :
    (forest.places rules (depth + 1) (pair.below rel)).map (rel ++ ·) =
      rel :: (forest.childNames rules (pair.below rel)).flatMap fun name =>
        (forest.places rules depth (pair.below (rel ++ [name]))).map ((rel ++ [name]) ++ ·) := by
  rw [places, List.map_cons, List.append_nil, List.map_flatMap]
  refine congrArg (rel :: ·) (List.flatMap_congr fun name _ => ?_)
  rw [List.map_map, Pair.below_concat]
  refine List.map_congr_left fun rest _ => ?_
  exact (List.append_assoc rel [name] rest).symm

/-- **The places are in pre-order.** -/
theorem preorder_places (h : forest.CoversPair (pair.below rel))
    (hdepth : forest.Shallow depth (pair.below rel)) :
    Preorder (fun rel => forest.childNames rules (pair.below rel)) rel
      ((forest.places rules (depth + 1) (pair.below rel)).map (rel ++ ·)) := by
  induction depth generalizing rel with
  | zero =>
      rw [map_places_succ]
      refine .node fun name hname => ?_
      obtain ⟨⟨hentry, -⟩, hexists⟩ := (mem_childNames h).mp hname
      have hnothing := hdepth [name] (List.forall_mem_singleton.mpr hentry) (Nat.zero_le _)
      exact hexists.elim (absurd hnothing.1) (absurd hnothing.2)
  | succ depth ih =>
      rw [map_places_succ]
      refine .node fun name hname => ?_
      obtain ⟨⟨hentry, -⟩, -⟩ := (mem_childNames h).mp hname
      apply ih
      · rw [Pair.below_concat]
        exact h.child hentry
      · rw [Pair.below_concat]
        exact hdepth.child hentry

/-- The places just below a place are those of its children, in order. -/
theorem filter_places_children (h : forest.CoversPair pair) (hdepth : forest.Shallow depth pair)
    (hrel : rel ∈ forest.places rules (depth + 1) pair) :
    (forest.places rules (depth + 1) pair).filter (fun other => other ≠ [] ∧ other.dropLast = rel) =
      (forest.childNames rules (pair.below rel)).map (rel ++ [·]) := by
  obtain ⟨hplain, -⟩ := (mem_places h hdepth).mp hrel
  have hmem : ∀ other,
      other ∈ (forest.places rules (depth + 1) pair).filter
          (fun other => other ≠ [] ∧ other.dropLast = rel) ↔
        other ∈ (forest.childNames rules (pair.below rel)).map (rel ++ [·]) := by
    intro other
    rw [List.mem_filter, decide_eq_true_iff, List.mem_map]
    have hchild : ∀ name, rel ++ [name] ∈ forest.places rules (depth + 1) pair ↔
        name ∈ forest.childNames rules (pair.below rel) := by
      intro name
      have hcovers := h.below hplain.isEntry
      rw [mem_places h hdepth, mem_childNames hcovers, Pair.below_concat]
      constructor
      · rintro ⟨hboth, hexists⟩
        exact ⟨hboth name (by simp), hexists.resolve_left (by simp)⟩
      · rintro ⟨hname, hexists⟩
        exact ⟨List.forall_mem_append.mpr ⟨hplain, List.forall_mem_singleton.mpr hname⟩,
          .inr hexists⟩
    rcases List.eq_nil_or_concat other with rfl | ⟨front, name, rfl⟩
    · simp
    · rw [List.concat_eq_append, List.dropLast_concat]
      constructor
      · rintro ⟨hmem, -, rfl⟩
        exact ⟨name, (hchild name).mp hmem, rfl⟩
      · rintro ⟨_, hname, heq⟩
        obtain ⟨rfl, hlast⟩ := List.append_inj' heq rfl
        cases hlast
        exact ⟨(hchild name).mpr hname, by simp, rfl⟩
  -- Both lists are increasing and hold the same places, so they are one list.
  refine ((pairwise_places h _).filter _).eq_of_mem_iff ?_ hmem
  rw [List.pairwise_map]
  refine (pairwise_nameSet _).imp fun hlt => List.append_left_lt ?_
  exact List.cons_lt_cons_iff.mpr (.inl hlt)

/-! ## The names of children -/

theorem exists_run_ask {τ : Type} {q : Query} {answer : q.Answer} (h : forest.answers q = .ok answer)
    (out : Sink τ) (start : Run Unit τ) :
    ∃ after, (Dialogue.request (.ask q)).run forest.fileSystem out start = (.ok answer, after) := by
  rw [Dialogue.run_request]
  exact ⟨_, Prod.ext h rfl⟩

theorem exists_run_entriesAt {τ : Type} {path : Path} (h : forest.Covers path) (out : Sink τ)
    (start : Run Unit τ) :
    ∃ after, (Walk.entriesAt (forest.kind path) path).run forest.fileSystem out start =
      (.ok (if forest.kind path = .directory then forest.names path else []), after) := by
  unfold Walk.entriesAt
  split
  · next hdir => exact exists_run_ask (forest.list_eq h hdir) out start
  · exact ⟨start, rfl⟩

/-- A pair that has not been classified has the children that a walk visits. -/
theorem exists_run_children {τ : Type} (h : forest.CoversPair pair) (out : Sink τ)
    (start : Run Unit τ) :
    ∃ after, (children rules pair).run forest.fileSystem out start =
      (.ok (forest.childNames rules pair), after) := by
  obtain ⟨one, hsource⟩ := exists_run_ask (forest.classify_eq h.source) out start
  obtain ⟨two, hdestination⟩ := exists_run_ask (forest.classify_eq h.destination) out one
  obtain ⟨three, hentries⟩ := exists_run_entriesAt h.source out two
  obtain ⟨four, hothers⟩ := exists_run_entriesAt h.destination out three
  refine ⟨four, Dialogue.run_bind_ok.mpr ⟨_, one, hsource, ?_⟩⟩
  refine Dialogue.run_bind_ok.mpr ⟨_, two, hdestination, ?_⟩
  refine Dialogue.run_bind_ok.mpr ⟨_, three, hentries, ?_⟩
  exact Dialogue.run_bind_ok.mpr ⟨_, four, hothers, rfl⟩

end Forest

/-! ## Other listings -/

theorem SameAnswer.mono {query : Query} {one two : Except Failure query.Answer}
    (h : SameAnswer { metadataNames := [] } query one two) (rules : Rules) :
    SameAnswer rules query one two := by
  cases query with
  | classify | same => exact h
  | list path =>
      cases one with
      | error failure => exact h
      | ok names =>
          cases two with
          | error failure => cases h
          | ok others => exact fun name _ => h name List.not_mem_nil

/-- Neither the order of the listings nor what is listed repeatedly makes a difference to a walk. -/
theorem run_walk_of_relists {σ τ : Type} {answers : (q : Query) → Except Failure q.Answer}
    {fs : FileSystem σ} (h : Relists answers fs) (rules : Rules) (budget : Nat) (pair : Pair)
    (out : Sink τ) (files : σ) (sink : τ) :
    let one := (walk rules budget pair).run (.ofAnswers answers) out ⟨(), sink, {}, #[]⟩
    let two := (walk rules budget pair).run fs out ⟨files, sink, {}, #[]⟩
    one.1 = two.1 ∧ one.2.events = two.2.events ∧ one.2.session = two.2.session ∧
      one.2.sink = two.2.sink := by
  have hagree : Agree rules [pair] (fun _ _ => True) (.ofAnswers answers) fs :=
    fun query _ _ files _ => ⟨(h query files).mono rules, trivial⟩
  have hinside : ∀ t ∈ [Task.visit pair false false], t.Inside (fun _ _ => True) rules pair :=
    List.forall_mem_singleton.mpr ⟨[], .here, rfl⟩
  have hstart : (Coupling.same fun _ _ => True).Holds (⟨(), sink, {}, #[]⟩ : Run Unit τ)
      (⟨files, sink, {}, #[]⟩ : Run σ τ) := ⟨trivial, rfl, rfl, rfl⟩
  have halike : Alike (Coupling.same fun _ _ => True) _ _ out (walk rules budget pair)
      (walk rules budget pair) _ _ :=
    alike_workOff hagree List.mem_cons_self budget hinside hstart
  obtain ⟨-, hresult, hstates⟩ := halike
  exact ⟨hresult, Array.toList_inj.mp hstates.events, hstates.session, hstates.sink⟩

/-! ## Visits -/

namespace Forest

variable {forest : Forest} {rules : Rules} {pair : Pair} {depth : Nat}

/-- From where nothing is left on, more depth makes no difference. -/
theorem places_eq_of_shallow {more : Nat} (h : forest.CoversPair pair)
    (hdepth : forest.Shallow depth pair) (hmore : depth ≤ more) :
    forest.places rules (more + 1) pair = forest.places rules (depth + 1) pair := by
  refine (pairwise_places h _).eq_of_mem_iff (pairwise_places h _) fun rel => ?_
  rw [mem_places h (hdepth.mono hmore), mem_places h hdepth]

theorem visits_of_run {budget : Nat} {finish : Run Unit (Array Command)}
    (h : forest.CoversPair pair) (hdepth : forest.Shallow depth pair)
    (hrun : (walk rules budget pair).run forest.fileSystem (.collect none) ⟨(), #[], {}, #[]⟩ =
      (.ok (), finish)) :
    finish.visits = (forest.places rules (depth + 1) pair).map fun rel =>
      .visiting (forest.kind (pair.below rel).source) (forest.kind (pair.below rel).destination)
        (pair.below rel) := by
  have hbudget : budget ≤ max depth budget + 1 :=
    Nat.le_succ_of_le (Nat.le_max_right depth budget)
  have hgone : ∀ {path}, false = true → forest.kind path = .missing :=
    fun hgone => absurd hgone Bool.false_ne_true
  obtain ⟨-, hvisits⟩ := tours_walk hbudget pair _ _ _ hrun
  rw [tour_eq_map_places h hgone hgone, places_eq_of_shallow h hdepth (Nat.le_max_left _ _),
    List.map_map] at hvisits
  exact hvisits

/-- **A walk visits the union of both sides in pre-order.** For a pair of text paths there is one
list of places, in pre-order, and in the order of the names that lead there, so that no place is
in it twice. In it are the pair itself and the places where there is anything at either side, names
that are passed over left out. What stands just below a place are the children that the pair there
has, also if nothing is known of it. With every budget from some one on a walk succeeds, and what it
then has logged are the visits of the places, in this order. A file system that lists the same names
in another order, or repeatedly, makes no difference. -/
theorem visits_are_preorder (forest : Forest) (rules : Rules) (pair : Pair)
    (h : forest.CoversPair pair)
    (htext : pair.source.isText = true ∧ pair.destination.isText = true) :
    ∃ order : List (List Name),
      Preorder (fun rel => forest.childNames rules (pair.below rel)) [] order ∧
      order.Pairwise (· < ·) ∧
      (∀ rel, rel ∈ order ↔ forest.Plain rules rel ∧
        (rel = [] ∨ forest.kind (pair.below rel).source ≠ .missing ∨
          forest.kind (pair.below rel).destination ≠ .missing)) ∧
      (∀ rel ∈ order,
        (∀ {τ : Type} (out : Sink τ) (start : Run Unit τ),
          ((children rules (pair.below rel)).run forest.fileSystem out start).1 =
            .ok (forest.childNames rules (pair.below rel))) ∧
        (forest.childNames rules (pair.below rel)).Pairwise (· < ·) ∧
        order.filter (fun other => other ≠ [] ∧ other.dropLast = rel) =
          (forest.childNames rules (pair.below rel)).map (rel ++ [·])) ∧
      (∃ budget, ∀ more, budget ≤ more → ∃ finish,
        (walk rules more pair).run forest.fileSystem (.collect none) ⟨(), #[], {}, #[]⟩ =
          (.ok (), finish)) ∧
      (∀ budget finish,
        (walk rules budget pair).run forest.fileSystem (.collect none) ⟨(), #[], {}, #[]⟩ =
          (.ok (), finish) →
        (finish.records.filter fun record => record.level = .debug) = order.map fun rel =>
          .visiting (forest.kind (pair.below rel).source) (forest.kind (pair.below rel).destination)
            (pair.below rel)) ∧
      ∀ {σ : Type} (fs : FileSystem σ) (files : σ), Relists forest.answers fs → ∀ budget,
        let one := (walk rules budget pair).run forest.fileSystem (.collect none) ⟨(), #[], {}, #[]⟩
        let two := (walk rules budget pair).run fs (.collect none) ⟨files, #[], {}, #[]⟩
        one.1 = two.1 ∧ one.2.events = two.2.events ∧ one.2.session = two.2.session ∧
          one.2.sink = two.2.sink := by
  obtain ⟨depth, hdepth⟩ := exists_shallow h
  refine ⟨forest.places rules (depth + 1) pair, ?_, pairwise_places h _,
    fun rel => mem_places h hdepth, ?_, ?_, ?_, ?_⟩
  · have hpreorder : Preorder (fun rel => forest.childNames rules (pair.below rel)) []
        ((forest.places rules (depth + 1) pair).map ([] ++ ·)) := preorder_places h hdepth
    simpa using hpreorder
  · intro rel hrel
    have hcovers := h.below ((mem_places h hdepth).mp hrel).1.isEntry
    refine ⟨?_, pairwise_nameSet _, filter_places_children h hdepth hrel⟩
    intro τ out start
    obtain ⟨after, hrun⟩ := exists_run_children hcovers out start
    exact congrArg Prod.fst hrun
  · -- with enough budget the walk gets through
    obtain ⟨budget, finish, hb⟩ :=
      exists_walk_ok rules h htext Sink.acceptsAll_collect ⟨(), #[], {}, #[]⟩
    exact ⟨budget, fun more hmore => ⟨finish, hb more hmore⟩⟩
  · exact fun budget finish => visits_of_run h hdepth
  · exact fun fs files hrelists budget =>
      run_walk_of_relists hrelists rules budget pair (.collect none) files #[]

/-- Names from both sides, one of them below a file of the other side. -/
theorem visits_are_preorder_union :
    let s : Path := .ofString "s"
    let d : Path := .ofString "d"
    let nodes : List (Place × Tree.Node) := [([[0x73]], .directory), ([[0x73], [0x61]], .file []),
      ([[0x73], [0x63]], .directory), ([[0x73], [0x63], [0x78]], .file []),
      ([[0x64]], .directory), ([[0x64], [0x62]], .directory), ([[0x64], [0x63]], .file [])]
    ∃ h : Tree.Placed nodes,
      let forest := (Volume.ofNodes nodes h).toForest
      forest.CoversPair ⟨s, d⟩ ∧ (s.isText = true ∧ d.isText = true) ∧
        ∃ order, Preorder (fun rel => forest.childNames {} (Pair.below ⟨s, d⟩ rel)) [] order ∧
          [[], [[0x61]], [[0x62]], [[0x63]], [[0x63], [0x78]]] ⊆ order ∧
          ∃ budget, ∀ more, budget ≤ more → ∃ finish,
            (walk {} more ⟨s, d⟩).run forest.fileSystem (.collect none) ⟨(), #[], {}, #[]⟩ =
              (.ok (), finish) ∧
            finish.visits = order.map fun rel =>
              .visiting (forest.kind ((Pair.below ⟨s, d⟩ rel).source))
                (forest.kind ((Pair.below ⟨s, d⟩ rel).destination)) (Pair.below ⟨s, d⟩ rel) := by
  intro s d nodes
  have h : Tree.Placed nodes := by decide +kernel
  have hcovers : (Volume.ofNodes nodes h).CoversPair ⟨s, d⟩ := ⟨trivial, trivial⟩
  have htext : s.isText = true ∧ d.isText = true := by decide +kernel
  obtain ⟨order, hpreorder, -, hmem, -, ⟨budget, hruns⟩, hvisits, -⟩ :=
    visits_are_preorder _ {} _ hcovers htext
  refine ⟨h, hcovers, htext, order, hpreorder, ?_, budget, fun more hmore => ?_⟩
  · have hplaces : ∀ rel ∈ [[], [[0x61]], [[0x62]], [[0x63]], [[0x63], [0x78]]],
        (∀ name ∈ rel, EntryName name ∧ name ∉ Rules.metadataNames {}) ∧
          (rel = [] ∨ Tree.Node.kind (Tree.ofNodes nodes (s.below rel).place) ≠ .missing ∨
            Tree.Node.kind (Tree.ofNodes nodes (d.below rel).place) ≠ .missing) := by
      decide +kernel
    exact fun rel hrel => (hmem rel).mpr (hplaces rel hrel)
  · obtain ⟨finish, hrun⟩ := hruns more hmore
    exact ⟨finish, hrun, hvisits more finish hrun⟩

end Forest

end TreePlan

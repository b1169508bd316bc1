import TreePlan.Proofs.Forest.Outcome
import TreePlan.Proofs.Metadata
import TreePlan.Proofs.Tour.Rows

/-!
# A walk the other way round

If source and destination change places, the walk makes the same tour, for the children of a pair
are the entries of both sides. The rows of its stops are others, and `recurse` is elsewhere in
them, but what one row queues to be added the other one queues to be deleted. So it is the rows of
the stops that are compared, and not the two runs.

* `tour_swap`, `completes_swap`: the tour the other way round, which comes to its end as well;
* `Run.Does.overwrites_perm`: the copies of files over files are those of the stops that ask for
  one;
* `mirrored_walk`: so what is left behind is the same on both ways, with additions and deletions
  exchanged.
-/

namespace TreePlan

variable {σ τ : Type} {answers : (q : Query) → Except Failure q.Answer} {rules : Rules}
  {pair : Pair}

/-! ## Changing places -/

theorem Pair.swap_child (pair : Pair) (name : Name) :
    pair.swap.child name = (pair.child name).swap := rfl

def Stop.swap (stop : Stop) : Stop := ⟨stop.rel, stop.destination, stop.source⟩

/-! ## The tour the other way round -/

theorem childrenFound_swap (source destination : Kind) :
    childrenFound answers rules pair.swap destination source =
      childrenFound answers rules pair source destination := by
  refine Walk.visible_congr fun name _ => ?_
  rw [List.mem_append, List.mem_append]
  exact or_comm

/-- **The tour is the same**, with the sides exchanged. -/
theorem tour_swap (depth : Nat) (pair : Pair) (sourceGone destinationGone : Bool) :
    tour answers rules depth pair.swap destinationGone sourceGone =
      (tour answers rules depth pair sourceGone destinationGone).map Stop.swap := by
  induction depth generalizing pair sourceGone destinationGone with
  | zero => rfl
  | succ depth ih =>
      rw [tour, tour, List.map_cons, List.map_flatMap]
      refine congrArg (_ :: ·) ?_
      refine (congrArg (List.flatMap _) (childrenFound_swap _ _)).trans ?_
      refine List.flatMap_congr fun name _ => ?_
      rw [Pair.swap_child, ih, List.map_map, List.map_map]
      rfl

theorem completes_swap {depth : Nat} {sourceGone destinationGone : Bool}
    (h : Completes answers rules depth pair sourceGone destinationGone) :
    Completes answers rules depth pair.swap destinationGone sourceGone := by
  induction depth generalizing pair sourceGone destinationGone with
  | zero => exact h
  | succ depth ih =>
      obtain ⟨hsource, hdestination, hchildren⟩ := h
      refine ⟨hdestination, hsource, fun name hname => ih (hchildren name ?_)⟩
      rwa [childrenFound_swap] at hname

/-! ## The rows the other way round -/

/-- What one action notes, the other one notes the other way round. -/
inductive Action.Mirrors : Action → Action → Prop
  | add : Mirrors .queueAdd .queueDelete
  | delete : Mirrors .queueDelete .queueAdd
  | conflict : Mirrors .flagConflict .flagConflict

theorem Stop.takes_swap {action mirrored : Action} (h : action.Mirrors mirrored) (stop : Stop) :
    stop.swap.takes mirrored = stop.takes action := by
  obtain ⟨rel, source, destination⟩ := stop
  cases h <;> cases source <;> cases destination <;> rfl

/-! ## Copies of files over files -/

/-- Whether two files were found, of which the command copies one over the other. -/
def LogRecord.isOverwrittenBy (command : Command) : LogRecord → Bool
  | .visiting .file .file place => command = .copy place.source place.destination
  | _ => false

/-- The copies over what was found to be a file, of what was found to be a file. -/
def Run.overwrites (run : Run σ τ) : List Command :=
  run.commands.filter fun command => run.records.any (LogRecord.isOverwrittenBy command)

def Stop.overwrite? (answers : (q : Query) → Except Failure q.Answer) (pair : Pair) (stop : Stop) :
    Option Command :=
  let place := pair.below stop.rel
  if stop.source = .file ∧ stop.destination = .file ∧
      answers (.same place.source place.destination) ≠ .ok true then
    some (.copy place.source place.destination)
  else none

theorem LogRecord.isOverwrittenBy_eq_true_iff {command : Command} {record : LogRecord} :
    record.isOverwrittenBy command = true ↔ ∃ place, record = .visiting .file .file place ∧
      command = .copy place.source place.destination := by
  unfold isOverwrittenBy
  split
  · next place =>
    rw [decide_eq_true_iff]
    constructor
    · exact fun h => ⟨place, rfl, h⟩
    · rintro ⟨_, ⟨⟩, h⟩
      exact h
  · next hnot =>
    constructor
    · exact fun h => absurd h Bool.false_ne_true
    · rintro ⟨place, rfl, -⟩
      exact absurd rfl (hnot place)

/-- Of the commands of a row, only a copy of a file over a file may be one. -/
theorem Stop.filter_commands (stop : Stop) {p : Command → Bool}
    (hremove : ∀ path recursive, p (.remove path recursive) = false)
    (hmkdir : ∀ path, p (.mkdir path) = false)
    (hcopy : p (.copy (pair.below stop.rel).source (pair.below stop.rel).destination) = true ↔
      stop.source = .file ∧ stop.destination = .file) :
    (stop.commands answers pair).filter p = (stop.overwrite? answers pair).toList := by
  obtain ⟨rel, source, destination⟩ := stop
  cases source <;> cases destination <;>
    simp_all [Stop.commands, policy, Action.commands, Stop.overwrite?]
  split <;> simp_all

section
variable {finish : Run σ τ} {stops : List Stop} (h : finish.Does answers pair stops)
  (hplaces : (stops.map Stop.rel).Nodup)
  (hsegments : ∀ stop ∈ stops, ∀ name ∈ stop.rel, Segment name)
include h hplaces hsegments

theorem Run.Does.any_isOverwrittenBy_iff {stop : Stop} (hstop : stop ∈ stops) :
    finish.records.any (LogRecord.isOverwrittenBy
        (.copy (pair.below stop.rel).source (pair.below stop.rel).destination)) = true ↔
      stop.source = .file ∧ stop.destination = .file := by
  have hrecord : ∀ source destination place, .visiting source destination place ∈ finish.records ↔
      ∃ stop ∈ stops, stop.record pair = .visiting source destination place := by
    intro source destination place
    rw [← List.mem_map, ← h.visits, Run.visits, List.mem_filter]
    exact (and_iff_left rfl).symm
  rw [List.any_eq_true]
  constructor
  · rintro ⟨record, hmem, hover⟩
    obtain ⟨place, rfl, hcopy⟩ := LogRecord.isOverwrittenBy_eq_true_iff.mp hover
    obtain ⟨other, hother, heq⟩ := (hrecord _ _ _).mp hmem
    obtain ⟨hsource, hdestination, rfl⟩ := LogRecord.visiting.inj heq
    -- Names lead to one source each, and a place is visited once.
    have hrel : stop.rel = other.rel := pair.source.below_inj (hsegments stop hstop)
      (hsegments other hother) (Command.copy.inj hcopy).1
    obtain rfl := List.inj_on_of_nodup_map hplaces hstop hother hrel
    exact ⟨hsource, hdestination⟩
  · rintro ⟨hsource, hdestination⟩
    refine ⟨.visiting .file .file (pair.below stop.rel), (hrecord _ _ _).mpr ⟨stop, hstop, ?_⟩, ?_⟩
    · rw [Stop.record, hsource, hdestination]
    · exact LogRecord.isOverwrittenBy_eq_true_iff.mpr ⟨_, rfl, rfl⟩

/-- The copies over files are those that the stops ask for. -/
theorem Run.Does.overwrites_perm :
    finish.overwrites.Perm (stops.filterMap (Stop.overwrite? answers pair)) := by
  -- No other command is taken for a copy.
  have hnone : ∀ command, (∀ source target, command ≠ .copy source target) →
      finish.records.any (LogRecord.isOverwrittenBy command) = false := by
    intro command hnot
    rw [List.any_eq_false]
    intro record _ hover
    obtain ⟨place, -, hcopy⟩ := LogRecord.isOverwrittenBy_eq_true_iff.mp hover
    exact hnot _ _ hcopy
  refine (h.commands.filter _).trans ?_
  rw [List.filter_flatMap, List.filterMap_eq_flatMap_toList]
  refine List.Perm.of_eq (List.flatMap_congr fun stop hstop => stop.filter_commands ?_ ?_ ?_)
  · exact fun _ _ => hnone _ fun _ _ heq => Command.noConfusion heq
  · exact fun _ => hnone _ fun _ _ heq => Command.noConfusion heq
  · exact h.any_isOverwrittenBy_iff hplaces hsegments hstop

end

/-! ## Both ways -/

/-- What two runs leave behind is the same, with the sides of the pair exchanged. -/
structure Mirrored (pair : Pair) (one other : Run σ τ) : Prop where
  /-- The same places were visited, in the same order, and the same was found there. -/
  visits : ∃ stops : List Stop, (∀ stop ∈ stops, ∀ name ∈ stop.rel, EntryName name) ∧
    one.visits = stops.map (Stop.record pair) ∧
      other.visits = stops.map fun stop => stop.swap.record pair.swap
  /-- What one run adds below its destination, the other one deletes below its own. -/
  adds : ∃ rels rels' : List (List Name), rels.Perm rels' ∧
    (∀ rel ∈ rels, ∀ name ∈ rel, EntryName name) ∧
    one.session.adds.toList = rels.map pair.destination.below ∧
      other.session.deletes.toList = rels'.map pair.swap.destination.below
  deletes : ∃ rels rels' : List (List Name), rels.Perm rels' ∧
    (∀ rel ∈ rels, ∀ name ∈ rel, EntryName name) ∧
    one.session.deletes.toList = rels.map pair.destination.below ∧
      other.session.adds.toList = rels'.map pair.swap.destination.below
  conflict : one.session.conflict = other.session.conflict
  overwrites : one.overwrites.length = other.overwrites.length

theorem Stop.isSome_overwrite?_swap
    (hsame : ∀ one other, answers (.same one other) = answers (.same other one)) (stop : Stop) :
    (stop.swap.overwrite? answers pair.swap).isSome = (stop.overwrite? answers pair).isSome := by
  let place := pair.below stop.rel
  have hasks : stop.destination = .file ∧ stop.source = .file ∧
      answers (.same place.destination place.source) ≠ .ok true ↔
        stop.source = .file ∧ stop.destination = .file ∧
          answers (.same place.source place.destination) ≠ .ok true := by
    rw [hsame place.destination place.source]
    exact and_left_comm
  rw [Bool.eq_iff_iff]
  exact Option.isSome_ite.trans (hasks.trans Option.isSome_ite.symm)

/-- The rows decide what two runs have in common. -/
theorem Run.Does.mirrored {one other : Run σ τ} {stops : List Stop}
    (h : one.Does answers pair stops) (h' : other.Does answers pair.swap (stops.map Stop.swap))
    (hsame : ∀ one other, answers (.same one other) = answers (.same other one))
    (hplaces : (stops.map Stop.rel).Nodup)
    (hnames : ∀ stop ∈ stops, ∀ name ∈ stop.rel, EntryName name) : Mirrored pair one other := by
  have hrels : ∀ {action mirrored : Action}, action.Mirrors mirrored →
      ((stops.map Stop.swap).filter (Stop.takes mirrored)).map Stop.rel =
        (stops.filter (Stop.takes action)).map Stop.rel := by
    intro action mirrored hmirrors
    rw [List.filter_map, List.map_map]
    exact congrArg (List.map Stop.rel) (List.filter_congr fun stop _ => stop.takes_swap hmirrors)
  have hentries : ∀ {rels : List (List Name)} {p : Stop → Bool},
      rels.Perm ((stops.filter p).map Stop.rel) → ∀ rel ∈ rels, ∀ name ∈ rel, EntryName name := by
    intro rels p hperm rel hrel
    obtain ⟨stop, hstop, rfl⟩ := List.mem_map.mp (hperm.mem_iff.mp hrel)
    exact hnames stop (List.mem_filter.mp hstop).1
  refine ⟨⟨stops, hnames, h.visits, ?_⟩, ?_, ?_, ?_, ?_⟩
  · rw [h'.visits, List.map_map]
    rfl
  · -- what the one adds the other deletes
    obtain ⟨rels, hadds, hperm⟩ := h.adds
    obtain ⟨rels', hdeletes, hperm'⟩ := h'.deletes
    rw [hrels .add] at hperm'
    exact ⟨rels, rels', hperm.trans hperm'.symm, hentries hperm, hadds, hdeletes⟩
  · -- and the other way round
    obtain ⟨rels, hdeletes, hperm⟩ := h.deletes
    obtain ⟨rels', hadds, hperm'⟩ := h'.adds
    rw [hrels .delete] at hperm'
    exact ⟨rels, rels', hperm.trans hperm'.symm, hentries hperm, hdeletes, hadds⟩
  · rw [h.conflict, h'.conflict, List.any_map]
    exact congrArg stops.any (funext fun stop => (stop.takes_swap .conflict).symm)
  · -- a file over a file is the same to both
    have hsegments : ∀ stop ∈ stops, ∀ name ∈ stop.rel, Segment name :=
      fun stop hstop name hname => (hnames stop hstop name hname).segment
    have hplaces' : ((stops.map Stop.swap).map Stop.rel).Nodup := by
      rw [List.map_map]
      exact hplaces
    have hsegments' : ∀ stop ∈ stops.map Stop.swap, ∀ name ∈ stop.rel, Segment name :=
      List.forall_mem_map.mpr hsegments
    rw [(h.overwrites_perm hplaces hsegments).length_eq,
      (h'.overwrites_perm hplaces' hsegments').length_eq, List.length_filterMap_eq_countP,
      List.length_filterMap_eq_countP, List.countP_map]
    exact List.countP_congr fun stop _ => by rw [Function.comp, stop.isSome_overwrite?_swap hsame]

/-- **Turning a pair round exchanges additions and deletions.** Take a file system that stands still
and never fails, in which the order of two files makes no difference to whether they are the same,
and whose listed names can be those of entries; and take a pair of text paths. If the walk through
it comes to its end, so does the walk through the pair the other way round, with every budget from
some one on, and both have a result. They visit the same places and find the same there. What one of
them adds below its destination the other one deletes below its own, up to order, and the other way
round; both flag a conflict or neither does, and as many files are copied over files. -/
theorem mirrored_walk (answers : (q : Query) → Except Failure q.Answer) (rules : Rules)
    (budget : Nat) (pair : Pair)
    (hall : ∀ query, ∃ answer, answers query = .ok answer)
    (hsame : ∀ one other, answers (.same one other) = answers (.same other one))
    (hlist : ∀ path names, answers (.list path) = .ok names → ∀ name ∈ names, EntryName name)
    (htext : pair.IsText)
    (h : (walk rules budget pair).concludes (.ofAnswers answers) (.collect none)
      ⟨(), #[], {}, #[]⟩ = true) :
    ∃ finish finish' : Run Unit (Array Command),
      (walk rules budget pair).run (.ofAnswers answers) (.collect none) ⟨(), #[], {}, #[]⟩ =
        (.ok (), finish) ∧
      (∃ enough, ∀ more, enough ≤ more →
        (walk rules more pair.swap).run (.ofAnswers answers) (.collect none) ⟨(), #[], {}, #[]⟩ =
          (.ok (), finish')) ∧
      Mirrored pair finish finish' := by
  obtain ⟨-, -, hcompletes, -⟩ :=
    exists_run_does hall Sink.acceptsAll_collect hlist htext (Nat.le_refl budget) #[] h
  obtain ⟨enough, hends⟩ :=
    exists_budget_of_completes (completes_swap hcompletes) (.collect none) ⟨(), #[], {}, #[]⟩
  -- One depth for the tours of both.
  let depth := max budget enough
  obtain ⟨finish, hrun, -, hdoes⟩ := exists_run_does hall Sink.acceptsAll_collect hlist htext
    (Nat.le_max_left budget enough) #[] h
  obtain ⟨finish', hrun', -, hdoes'⟩ := exists_run_does hall Sink.acceptsAll_collect hlist
    ⟨htext.destination, htext.source⟩ (Nat.le_max_right budget enough) #[]
    (hends enough (Nat.le_refl enough)).1
  rw [tour_swap] at hdoes'
  refine ⟨finish, finish', hrun, ⟨enough, fun more hmore => ?_⟩, ?_⟩
  · exact (hends more hmore).2.trans hrun'
  · exact hdoes.mirrored hdoes' hsame (nodup_places answers rules depth pair)
      fun stop hstop => forall_mem_rel_of_mem_tour hlist hstop

/-- A directory stands where the other side has a file, and two files differ. -/
theorem mirrored_walk_conflict :
    let nodes : List (Place × Tree.Node) := [([[0x73]], .directory),
      ([[0x73], [0x61]], .file [0x31]), ([[0x73], [0x63]], .directory),
      ([[0x73], [0x63], [0x78]], .file []), ([[0x64]], .directory),
      ([[0x64], [0x61]], .file [0x32]), ([[0x64], [0x62]], .file []), ([[0x64], [0x63]], .file [])]
    let answers := Tree.answersOf nodes
    let pair : Pair := ⟨.ofString "s", .ofString "d"⟩
    let start : Run Unit (Array Command) := ⟨(), #[], {}, #[]⟩
    (∀ query, ∃ answer, answers query = .ok answer) ∧
      (∀ one other, answers (.same one other) = answers (.same other one)) ∧
      (∀ path names, answers (.list path) = .ok names → ∀ name ∈ names, EntryName name) ∧
      pair.IsText ∧ ∃ budget,
        (walk {} budget pair).concludes (.ofAnswers answers) (.collect none) start = true ∧
          ∃ finish finish',
            (walk {} budget pair).run (.ofAnswers answers) (.collect none) start =
                (.ok (), finish) ∧
              (∃ enough, ∀ more, enough ≤ more →
                (walk {} more pair.swap).run (.ofAnswers answers) (.collect none) start =
                  (.ok (), finish')) ∧
              Mirrored pair finish finish' := by
  intro nodes answers pair start
  have hplaced : Tree.Placed nodes := by decide +kernel
  have hall : ∀ query, ∃ answer, answers query = .ok answer := by
    intro query
    cases query <;> exact ⟨_, rfl⟩
  have hsame : ∀ one other, answers (.same one other) = answers (.same other one) :=
    fun _ _ => congrArg Except.ok (decide_eq_decide.mpr eq_comm)
  have hlist : ∀ path names, answers (.list path) = .ok names → ∀ name ∈ names, EntryName name := by
    intro path names hnames name hname
    obtain rfl : Tree.namesOf nodes path.place = names := Except.ok.inj hnames
    exact (hplaced.of_child (Tree.mem_namesOf.mp hname)).1
  have htext : pair.IsText := ⟨by decide +kernel, by decide +kernel⟩
  have hcovers : (Volume.ofNodes nodes hplaced).CoversPair pair := ⟨trivial, trivial⟩
  obtain ⟨budget, finish, hends⟩ := Forest.exists_walk_ok {} hcovers
    ⟨htext.source, htext.destination⟩ Sink.acceptsAll_collect start
  have hconcludes := Dialogue.concludes_of_run_ok _ _ (hends budget (Nat.le_refl budget))
  exact ⟨hall, hsame, hlist, htext, budget, hconcludes,
    mirrored_walk answers {} budget pair hall hsame hlist htext hconcludes⟩

end TreePlan

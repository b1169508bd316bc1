import TreePlan.Proofs.Course.Place
import TreePlan.Proofs.Transcript
import TreePlan.Proofs.Volume

/-!
# A walk stays inside its pair

A walk goes from a pair to the pairs below it by names that it was told of. So whatever it does, it
does at a place to which listed names lead, and it does it to both sides of one place.

* `Led` says that names lead down from a pair: each was listed at its level, on one side or on the
  other, and none is passed over.
* `Task.Inside` is the invariant of the work list: every task is about a pair to which names lead.
* `walk_stays_inside` says of every run what was handed over and queued, and where that is.
-/

namespace TreePlan

/-! ## Where names lead -/

/-- The names lead down from a pair: each was listed at its level and is not passed over. -/
inductive Led (may : (q : Query) → q.Answer → Prop) (rules : Rules) (root : Pair) : List Name → Prop
  | here : Led may rules root []
  | child {rel : List Name} {name : Name} {source destination : Kind} (h : Led may rules root rel)
      (hname : Listed may rules (root.below rel) source destination name) :
      Led may rules root (rel ++ [name])

section
variable {may : (q : Query) → q.Answer → Prop} {rules : Rules} {root : Pair} {rel : List Name}

/-- What all listed names have, the names that lead anywhere have. -/
theorem Led.forall_mem {N : Name → Prop} (hN : ∀ {pair : Pair} {source destination : Kind}
    {name : Name}, Listed may rules pair source destination name → N name)
    (h : Led may rules root rel) : ∀ name ∈ rel, N name := by
  induction h with
  | here => exact List.forall_mem_nil _
  | child _ hname ih =>
      exact List.forall_mem_append.mpr ⟨ih, List.forall_mem_singleton.mpr (hN hname)⟩

theorem Led.notMem_metadataNames (h : Led may rules root rel) :
    ∀ name ∈ rel, name ∉ rules.metadataNames := h.forall_mem fun hname => hname.1

theorem Led.segment (hlist : ∀ path names, may (.list path) names → ∀ name ∈ names, Segment name)
    (h : Led may rules root rel) : ∀ name ∈ rel, Segment name :=
  h.forall_mem fun hname => hname.of_names hlist

/-! ## The requests of a walk -/

/-- The requests that a walk makes for a pair. -/
inductive Request.OfPair (pair : Pair) : Request → Prop
  | classifySource : OfPair pair (.ask (.classify pair.source))
  | classifyDestination : OfPair pair (.ask (.classify pair.destination))
  | visiting (source destination : Kind) : OfPair pair (.log (.visiting source destination pair))
  | about {r : Request} (h : About pair r) : OfPair pair r

/-- There are only two paths that a request for a pair can be about. -/
theorem Request.OfPair.eq_of_mem_paths {pair : Pair} {r : Request} (h : OfPair pair r) {path : Path}
    (hpath : path ∈ r.paths) : path = pair.source ∨ path = pair.destination := by
  cases h with
  | visiting => exact absurd hpath List.not_mem_nil
  | classifySource => exact .inl (List.mem_singleton.mp hpath)
  | classifyDestination => exact .inr (List.mem_singleton.mp hpath)
  | about h =>
      cases h with
      | typeConflict | conflict => exact absurd hpath List.not_mem_nil
      | listSource => exact .inl (List.mem_singleton.mp hpath)
      | listDestination | remove | mkdir | add | delete => exact .inr (List.mem_singleton.mp hpath)
      | same | copy => exact (List.mem_cons.mp hpath).imp id List.mem_singleton.mp

/-- A request for one of the pairs to which names lead. -/
def Request.Inside (may : (q : Query) → q.Answer → Prop) (rules : Rules) (root : Pair)
    (r : Request) : Prop :=
  ∃ rel, Led may rules root rel ∧ r.OfPair (root.below rel)

def Task.pair : Task → Pair
  | .visit pair _ _ | .resume pair _ _ _ => pair

def Task.Inside (may : (q : Query) → q.Answer → Prop) (rules : Rules) (root : Pair) (t : Task) :
    Prop :=
  ∃ rel, Led may rules root rel ∧ t.pair = root.below rel

open Dialogue

/-- What is left of a pair to which names lead is inside as well. -/
theorem Task.ListedOf.inside (hrel : Led may rules root rel) {t : Task}
    (h : ListedOf may rules (root.below rel) t) : t.Inside may rules root := by
  cases h with
  | visit hname => exact ⟨_, hrel.child hname, (root.below_concat _ _).symm⟩
  | resume => exact ⟨rel, hrel, rfl⟩

/-- One task makes requests inside, and leaves tasks inside. -/
theorem stays_step {t : Task} (h : t.Inside may rules root) :
    Stays may (Request.Inside may rules root) (fun first => ∀ t ∈ first, t.Inside may rules root)
      (Walk.step rules t) := by
  obtain ⟨rel, hrel, hpair⟩ := h
  -- What a pair does is done at the pair, and what it leaves is one listed name further down.
  have hperform : ∀ (source destination : Kind) (actions : List Action),
      Stays may (Request.Inside may rules root) (fun first => ∀ t ∈ first, t.Inside may rules root)
        (Walk.perform rules (root.below rel) source destination actions) := by
    intro source destination actions
    apply (stays_perform _ source destination actions).mono
    · intro r hr
      exact ⟨rel, hrel, .about hr⟩
    · intro first hfirst t ht
      exact (hfirst t ht).inside hrel
  cases t with
  | resume pair source destination actions =>
      obtain rfl : pair = root.below rel := hpair
      exact hperform source destination actions
  | visit pair sourceGone destinationGone =>
      obtain rfl : pair = root.below rel := hpair
      by_cases htext : (root.below rel).IsText
      · rw [Walk.step_visit htext]
        have hkind : ∀ (gone : Bool) {path : Path},
            (Request.ask (.classify path)).Inside may rules root →
            Stays may (Request.Inside may rules root) (fun _ => True) (Walk.kindAt gone path) :=
          fun gone _ hask => (only_kindAt gone hask).stays may
        refine (hkind sourceGone ⟨rel, hrel, .classifySource⟩).bind fun source _ => ?_
        refine (hkind destinationGone ⟨rel, hrel, .classifyDestination⟩).bind
          fun destination _ => ?_
        have hlog : (Request.log (.visiting source destination (root.below rel))).Inside may rules
            root := ⟨rel, hrel, .visiting source destination⟩
        exact (Stays.request hlog).bind fun _ _ => hperform source destination _
      · -- a path that is no text ends the walk
        rw [Walk.step_refused htext]
        exact .fail _

/-- **All tasks stay inside**, whatever is answered. -/
theorem stays_walk (may : (q : Query) → q.Answer → Prop) (rules : Rules) (budget : Nat)
    (pair : Pair) :
    Stays may (Request.Inside may rules pair) (fun _ => True) (walk rules budget pair) :=
  stays_workOff (fun _ => stays_step) budget (List.forall_mem_singleton.mpr ⟨[], .here, rfl⟩)

end

/-! ## Runs -/

/-- The command does something to the destination of the pair, and copies from nowhere but its
source. -/
def Command.At (pair : Pair) : Command → Prop
  | .remove path _ | .mkdir path => path = pair.destination
  | .copy source target => source = pair.source ∧ target = pair.destination
  | .delete _ | .commit _ _ | .add _ => False

section
variable {pair : Pair}

theorem Request.OfPair.at_of_command {command : Command} (h : OfPair pair (.emit command)) :
    command.At pair := by
  cases h with
  | about h =>
      cases h with
      | copy => exact ⟨rfl, rfl⟩
      | remove | mkdir => rfl

theorem Request.OfPair.eq_of_queued {r : Request} {path : Path} (h : OfPair pair r)
    (hpath : r.added? = some path ∨ r.deleted? = some path) : path = pair.destination := by
  cases h with
  | classifySource | classifyDestination | visiting => exact hpath.elim nofun nofun
  | about h =>
      cases h <;> rcases hpath with hpath | hpath <;> cases hpath
      all_goals rfl

end

section
variable {may : (q : Query) → q.Answer → Prop} {rules : Rules} {root : Pair} {trace : List Request}

/-- What requests inside hand over is for places to which names lead. -/
theorem at_of_mem_commands (h : ∀ r ∈ trace, r.Inside may rules root) {command : Command}
    (hcommand : command ∈ trace.filterMap Request.command?) :
    ∃ rel, Led may rules root rel ∧ command.At (root.below rel) := by
  obtain ⟨r, hr, hemits⟩ := List.mem_filterMap.mp hcommand
  obtain ⟨rel, hrel, hof⟩ := h r hr
  cases r with
  | emit other =>
      obtain rfl : other = command := Option.some.inj hemits
      exact ⟨rel, hrel, hof.at_of_command⟩
  | ask | log | note | review => cases hemits

/-- What requests inside queue are places to which names lead. -/
theorem eq_of_mem_queued (h : ∀ r ∈ trace, r.Inside may rules root) {path : Path}
    (hpath : path ∈ trace.filterMap Request.added? ++ trace.filterMap Request.deleted?) :
    ∃ rel, Led may rules root rel ∧ path = (root.below rel).destination := by
  obtain ⟨r, hr, hqueues⟩ : ∃ r ∈ trace, r.added? = some path ∨ r.deleted? = some path := by
    rcases List.mem_append.mp hpath with hadded | hdeleted
    · exact (List.mem_filterMap.mp hadded).imp fun _ => And.imp_right .inl
    · exact (List.mem_filterMap.mp hdeleted).imp fun _ => And.imp_right .inr
  obtain ⟨rel, hrel, hof⟩ := h r hr
  exact ⟨rel, hrel, hof.eq_of_queued hqueues⟩

end

variable {σ τ : Type}

/-- What was heard in a run has the names that the file system lists. -/
theorem segment_of_heard {α : Type} {fs : FileSystem σ} {out : Sink τ} {files : σ} {sink : τ}
    {session : Session} {events : Array Event} (d : Dialogue α)
    (hlist : ∀ path names, fs.Gives (.list path) names → ∀ name ∈ names, Segment name)
    (path : Path) (names : List Name)
    (h : (d.run fs.watch out ⟨([], files), sink, session, events⟩).2.Heard (.list path) names) :
    ∀ name ∈ names, Segment name := hlist path names (d.gives_of_heard h)

/-- **A walk stays inside its pair.** Whatever the file system answers, as long as the names it
lists can stand between separators, and wherever the walk ends: every command that was handed over,
and every path that was queued, is for one place below the pair. The names that lead there were
listed in this run, each at its level, and none of them is passed over; a copy has both its paths
at this one place. On the way from the root to either path stand the names on the way to the side
of the pair and then the names of the place. -/
theorem walk_stays_inside (fs : FileSystem σ) (out : Sink τ) (rules : Rules) (budget : Nat)
    (pair : Pair) (files : σ) (sink : τ) (session : Session) (events : Array Event)
    (hlist : ∀ path names, fs.Gives (.list path) names → ∀ name ∈ names, Segment name) :
    let outcome := (walk rules budget pair).run fs out ⟨files, sink, session, events⟩
    let watched := (walk rules budget pair).run fs.watch out.watch
      ⟨([], files), ([], sink), session, events⟩
    outcome = (watched.1, watched.2.unheard.unwatch) ∧
      (∀ command ∈ watched.2.sink.1,
        ∃ rel, Led watched.2.Heard rules pair rel ∧ command.At (pair.below rel)) ∧
      (∃ adds deletes, outcome.2.session.adds.toList = session.adds.toList ++ adds ∧
        outcome.2.session.deletes.toList = session.deletes.toList ++ deletes ∧
        ∀ path ∈ adds ++ deletes,
          ∃ rel, Led watched.2.Heard rules pair rel ∧ path = (pair.below rel).destination) ∧
      ∀ rel, Led watched.2.Heard rules pair rel →
        (pair.below rel).source.place = pair.source.place ++ rel ∧
          (pair.below rel).destination.place = pair.destination.place ++ rel := by
  intro outcome watched
  have hwatch : outcome = (watched.1, watched.2.unheard.unwatch) :=
    Dialogue.run_transcript (walk rules budget pair) ⟨([], files), ([], sink), session, events⟩
  -- One trace for all that was asked, handed over and queued.
  obtain ⟨trace, hinside, hrequested⟩ :=
    (stays_walk watched.2.Heard rules budget pair).requested fs out _ fun _ _ h => h
  refine ⟨hwatch, ?_, ⟨trace.filterMap Request.added?, trace.filterMap Request.deleted?, ?_, ?_,
    fun path hpath => eq_of_mem_queued hinside hpath⟩, ?_⟩
  · intro command hcommand
    rw [hrequested.handed, List.nil_append] at hcommand
    exact at_of_mem_commands hinside hcommand
  · rw [hwatch]
    exact hrequested.adds
  · rw [hwatch]
    exact hrequested.deletes
  · intro rel hrel
    have hsegments : ∀ name ∈ rel, Segment name :=
      hrel.segment (segment_of_heard (walk rules budget pair) hlist)
    exact ⟨Path.place_below _ hsegments, Path.place_below _ hsegments⟩

/-- A file takes the place of a directory, and the sink refuses the second command. -/
theorem walk_stays_inside_refused :
    let table : Table := ⟨[(.ofString "s", .file []), (.ofString "d/", .directory [[0x61]]),
      (.ofString "d/a", .directory [[0x62]]), (.ofString "d/a/b", .file [])], []⟩
    let pair : Pair := ⟨.ofString "s", .ofString "d/"⟩
    let watched := (walk {} 20 pair).run table.fileSystem.watch (Sink.collect (some 1)).watch
      ⟨([], ()), ([], #[]), {}, #[]⟩
    (∀ path names, table.fileSystem.Gives (.list path) names → ∀ name ∈ names, Segment name) ∧
      watched.2.sink.1 = [.remove (.ofString "d/a/b") false, .remove (.ofString "d/a") true] ∧
      ∀ command ∈ watched.2.sink.1,
        ∃ rel, Led watched.2.Heard {} pair rel ∧ command.At (pair.below rel) := by
  intro table pair watched
  have hlist : ∀ path names, table.fileSystem.Gives (.list path) names →
      ∀ name ∈ names, Segment name :=
    table.segment_of_gives (by decide +kernel)
  have hhanded : watched.2.sink.1 =
      [.remove (.ofString "d/a/b") false, .remove (.ofString "d/a") true] := by
    decide +kernel
  exact ⟨hlist, hhanded,
    (walk_stays_inside table.fileSystem (.collect (some 1)) {} 20 pair () #[] {} #[] hlist).2.1⟩

end TreePlan

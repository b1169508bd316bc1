import TreePlan.Run
import TreePlan.Walk

/-!
# What the session knows of the commands

A command is emitted the moment it is decided, and what the version control has to be told
about it is only noted. If a walk breaks off, notes without their command, or a command
without its note, would leave the two trees apart for good.

The main statement, `session_mirrors_commands`, rules that out. Wherever a walk ends, with or
without a failure of the file system or of the sink, the paths queued for deletion are those
of the accepted `remove` commands, and the paths queued for addition are the targets of the
accepted `mkdir` commands and of the accepted `copy` commands that did not replace a file,
all in the order of acceptance.

* `Booked` says of a row of the policy that each operation stands right in front of its note;
* `keeps_step` is one task: nothing that can fail comes between an operation and its note;
* `keeps_workOff` is the whole list, by induction on the budget, with `Tidy` for the visit
  that each waiting task belongs to.
-/

namespace TreePlan

namespace Event

def removed? : Event → Option Path
  | .emitted (.remove path _) => some path
  | _ => none

/-- The latest visit that found a file at the source, and what it found at the destination.
This is the visit a copy belongs to: no other visit copies, and below a file there is no
source, so none of this sort comes between a visit and its copy. -/
def fileVisit (last : Option (Pair × Kind)) : Event → Option (Pair × Kind)
  | .logged (.visiting .file destination pair) => some (pair, destination)
  | _ => last

/-- The path that an accepted command creates: the target of a `mkdir`, and that of a `copy`
unless its visit found a file there. -/
def created? (last : Option (Pair × Kind)) : Event → Option Path
  | .emitted (.mkdir path) => some path
  | .emitted (.copy source target) =>
    if last = some (⟨source, target⟩, .file) then none else some target
  | _ => none

end Event

def created : (last : Option (Pair × Kind)) → List Event → List Path
  | _, [] => []
  | last, event :: rest => (event.created? last).toList ++ created (event.fileVisit last) rest

/-- Every accepted copy is from the source of its visit to the destination of its visit. -/
def CopiesInPlace : (last : Option (Pair × Kind)) → List Event → Prop
  | _, [] => True
  | last, event :: rest =>
    (∀ source target, event = .emitted (.copy source target) →
      ∃ destination, last = some (⟨source, target⟩, destination)) ∧
    CopiesInPlace (event.fileVisit last) rest

/-! ## Events one after another -/

theorem created_append (last : Option (Pair × Kind)) (xs ys : List Event) :
    created last (xs ++ ys) = created last xs ++ created (xs.foldl Event.fileVisit last) ys := by
  induction xs generalizing last with
  | nil => rfl
  | cons event rest ih => simp only [List.cons_append, created, ih, List.foldl_cons, List.append_assoc]

theorem CopiesInPlace.append {last : Option (Pair × Kind)} {xs ys : List Event}
    (hx : CopiesInPlace last xs) (hy : CopiesInPlace (xs.foldl Event.fileVisit last) ys) :
    CopiesInPlace last (xs ++ ys) := by
  induction xs generalizing last with
  | nil => exact hy
  | cons event rest ih => exact ⟨hx.1, ih hx.2 hy⟩

/-- `Mirrors last start finish events`: on the way from `start` to `finish` the given events
happened, the notes made are those of the commands among them, and every copy is in its
place. `last` is the latest visit of a file before. -/
structure Mirrors {σ τ : Type} (last : Option (Pair × Kind)) (start finish : Run σ τ)
    (events : List Event) : Prop where
  events_eq : finish.events.toList = start.events.toList ++ events
  deletes_eq : finish.session.deletes.toList =
    start.session.deletes.toList ++ events.filterMap Event.removed?
  adds_eq : finish.session.adds.toList = start.session.adds.toList ++ created last events
  inPlace : CopiesInPlace last events

namespace Mirrors

variable {σ τ : Type} {last : Option (Pair × Kind)} {start mid finish : Run σ τ}
  {xs ys : List Event}

theorem refl (last : Option (Pair × Kind)) (start : Run σ τ) : Mirrors last start start [] :=
  ⟨by simp, by simp, by simp [created], trivial⟩

theorem trans (hx : Mirrors last start mid xs)
    (hy : Mirrors (xs.foldl Event.fileVisit last) mid finish ys) :
    Mirrors last start finish (xs ++ ys) where
  events_eq := by rw [hy.events_eq, hx.events_eq, List.append_assoc]
  deletes_eq := by rw [hy.deletes_eq, hx.deletes_eq, List.filterMap_append, List.append_assoc]
  adds_eq := by rw [hy.adds_eq, hx.adds_eq, created_append, List.append_assoc]
  inPlace := hx.inPlace.append hy.inPlace

end Mirrors

open Dialogue

section
variable {σ τ α β : Type} {rules : Rules} (fs : FileSystem σ) (out : Sink τ)

/-! ## Dialogues that keep the books -/

/-- Wherever a run of `d` ends, the session mirrors the commands; where it ends with a
result, `P` holds of the latest visit of a file and the result. -/
def Keeps (last : Option (Pair × Kind)) (d : Dialogue α) (P : Option (Pair × Kind) → α → Prop) :
    Prop :=
  ∀ start : Run σ τ, ∃ events, Mirrors last start (d.run fs out start).2 events ∧
    ∀ value, (d.run fs out start).1 = .ok value → P (events.foldl Event.fileVisit last) value

variable {last : Option (Pair × Kind)} {P : Option (Pair × Kind) → α → Prop}
  {Q : Option (Pair × Kind) → β → Prop}

theorem keeps_done {value : α} (h : P last value) : Keeps fs out last (.done value) P := by
  intro start
  refine ⟨[], .refl last start, ?_⟩
  rintro _ ⟨⟩
  exact h

theorem keeps_fail (failure : Failure) : Keeps fs out last (.fail failure) P := by
  intro start
  exact ⟨[], .refl last start, fun _ h => by cases h⟩

theorem keeps_mono {d : Dialogue α} {P' : Option (Pair × Kind) → α → Prop}
    (hd : Keeps fs out last d P) (h : ∀ after value, P after value → P' after value) :
    Keeps fs out last d P' := by
  intro start
  obtain ⟨events, hevents, hP⟩ := hd start
  exact ⟨events, hevents, fun value hv => h _ value (hP value hv)⟩

theorem keeps_bind {d : Dialogue α} {f : α → Dialogue β} (hd : Keeps fs out last d P)
    (hf : ∀ after value, P after value → Keeps fs out after (f value) Q) :
    Keeps fs out last (d >>= f) Q := by
  intro start
  obtain ⟨xs, hx, hP⟩ := hd start
  rw [run_bind]
  rcases hrun : d.run fs out start with ⟨failure | value, mid⟩
  · -- `d` failed, so there is no value to go on with
    rw [hrun] at hx
    exact ⟨xs, hx, fun _ h => by cases h⟩
  · rw [hrun] at hx hP
    obtain ⟨ys, hy, hQ⟩ := hf _ value (hP value rfl) mid
    exact ⟨xs ++ ys, hx.trans hy, by rwa [List.foldl_append]⟩

/-- What adds an event that is no command, and leaves the notes as they are, keeps the books. -/
theorem keeps_event {d : Dialogue α} (event : Event) (hcommand : ∀ c, event ≠ .emitted c)
    (hd : ∀ start : Run σ τ,
      (d.run fs out start).2.events.toList = start.events.toList ++ [event] ∧
        (d.run fs out start).2.session = start.session) :
    Keeps fs out last d fun after _ => after = event.fileVisit last := by
  intro start
  obtain ⟨hevents, hsession⟩ := hd start
  refine ⟨[event], ?_, fun _ _ => rfl⟩
  cases event with
  | emitted c => exact absurd rfl (hcommand c)
  | asked | logged =>
      exact ⟨hevents, by simp [hsession, Event.removed?],
        by simp [hsession, created, Event.created?], nofun, trivial⟩

theorem keeps_ask (q : Query) :
    Keeps fs out last (request (.ask q)) fun after _ => after = last :=
  keeps_event fs out (.asked q) nofun fun start => by
    rw [run_request]
    simp [Run.reply]

theorem keeps_log (record : LogRecord) :
    Keeps fs out last (log record) fun after _ => after = Event.fileVisit last (.logged record) :=
  keeps_event fs out (.logged record) nofun fun start => by
    rw [run_log]
    simp [Run.happened]

theorem keeps_note_conflict :
    Keeps fs out last (note .conflict) fun after _ => after = last := by
  intro start
  rw [run_note]
  exact ⟨[], ⟨by simp, by simp [Session.note], by simp [Session.note, created], trivial⟩,
    fun _ _ => rfl⟩

/-- An operation, and what is done for it right away: `d` can neither fail nor say anything more. -/
theorem keeps_emit (f : Session → Session) {c : Command} {d : Dialogue Unit}
    (hd : ∀ start : Run σ τ,
      d.run fs out start = (.ok (), { start with session := f start.session }))
    (hdeletes : ∀ session : Session, (f session).deletes.toList =
      session.deletes.toList ++ (Event.emitted c).removed?.toList)
    (hadds : ∀ session : Session, (f session).adds.toList =
      session.adds.toList ++ ((Event.emitted c).created? last).toList)
    (hplace : ∀ source target, c = .copy source target →
      ∃ destination, last = some (⟨source, target⟩, destination)) :
    Keeps fs out last (emit c >>= fun _ => d) fun after _ => after = last := by
  intro start
  rw [run_bind, emit, run_request, Run.reply]
  rcases out.accept c start.sink with ⟨cause | ⟨⟩, sink⟩
  -- A refused command ends the walk before its note is made.
  · exact ⟨[], ⟨by simp, by simp, by simp [created], trivial⟩, fun _ h => by cases h⟩
  · refine ⟨[.emitted c], ⟨?_, ?_, ?_, ?_⟩, fun _ _ => rfl⟩
    · simp [hd]
    · simp only [hd, hdeletes, Session.countEmitted]
      rcases h : (Event.emitted c).removed? with _ | path <;> simp [h]
    · simp [hd, hadds, Session.countEmitted, created]
    · refine ⟨?_, trivial⟩
      rintro source target ⟨⟩
      exact hplace source target rfl

/-- An accepted command and its note right after it are taken as one step. If the sink refuses
the command, there is neither. -/
theorem keeps_emit_note {c : Command} {n : Note} {d : Dialogue β}
    (hdeletes : ∀ session : Session, (session.note n).deletes.toList =
      session.deletes.toList ++ (Event.emitted c).removed?.toList)
    (hadds : ∀ session : Session, (session.note n).adds.toList =
      session.adds.toList ++ ((Event.emitted c).created? last).toList)
    (hplace : ∀ source target, c = .copy source target →
      ∃ destination, last = some (⟨source, target⟩, destination))
    (hd : Keeps fs out last d Q) :
    Keeps fs out last (emit c >>= fun _ => note n >>= fun _ => d) Q := by
  rw [← bind_assoc]
  refine keeps_bind fs out
    (keeps_emit fs out (·.note n) (run_note fs out n) hdeletes hadds hplace) ?_
  rintro _ _ rfl
  exact hd

/-- A copy onto a file needs no note. -/
theorem keeps_emit_copy (pair : Pair) :
    Keeps fs out (some (pair, .file)) (emit (.copy pair.source pair.destination))
      fun after _ => after = some (pair, .file) := by
  rw [← bind_done (emit _)]
  refine keeps_emit fs out id (fun start => run_done fs out () start) ?_ ?_ ?_
  · simp [Event.removed?]
  · simp [Event.created?]
  · rintro _ _ ⟨⟩
    exact ⟨.file, rfl⟩

/-! ## The rows of the policy -/

/-- `Booked source destination actions`: each operation among the actions stands right in
front of its note, and none that creates a path without a note stands where there is none. -/
inductive Booked (source destination : Kind) : List Action → Prop
  | nil : Booked source destination []
  | remove {rest} (h : Booked source destination rest) :
      Booked source destination (.remove :: .queueDelete :: rest)
  | copy {rest} (hs : source = .file) (hd : destination ≠ .file)
      (h : Booked source destination rest) :
      Booked source destination (.copy :: .queueAdd :: rest)
  | copyIfDifferent {rest} (hs : source = .file) (hd : destination = .file)
      (h : Booked source destination rest) :
      Booked source destination (.copyIfDifferent :: rest)
  | mkdir {rest} (h : Booked source destination rest) :
      Booked source destination (.mkdir :: .queueAdd :: rest)
  | flagConflict {rest} (h : Booked source destination rest) :
      Booked source destination (.flagConflict :: rest)
  | recurse {rest} (h : Booked source destination rest) :
      Booked source destination (.recurse :: rest)

theorem booked_policy (source destination : Kind) :
    Booked source destination (policy source destination) := by
  cases source <;> cases destination <;> repeat' first | constructor | decide

/-! ## One task -/

/-- The names of the children come from queries alone. -/
theorem keeps_childNames (pair : Pair) (source destination : Kind) :
    Keeps fs out last (Walk.childNames rules pair source destination)
      fun after _ => after = last := by
  have hentries : ∀ (after : Option (Pair × Kind)) (kind : Kind) (path : Path),
      Keeps fs out after (Walk.entriesAt kind path) fun later _ => later = after := by
    intro after kind path
    unfold Walk.entriesAt
    split
    · exact keeps_ask fs out (.list path)
    · exact keeps_done fs out rfl
  refine keeps_bind fs out (hentries last source pair.source) ?_
  rintro _ inSource rfl
  refine keeps_bind fs out (hentries _ destination pair.destination) ?_
  rintro _ inDestination rfl
  exact keeps_done fs out rfl

/-- What a list of actions yields: nothing more to do, or the children and then the rest. -/
def Yields (pair : Pair) (source destination : Kind) (first : List Task) : Prop :=
  first = [] ∨ ∃ names rest, Booked source destination rest ∧
    first = Walk.visits pair source destination names ++ [.resume pair source destination rest]

theorem keeps_perform {pair : Pair} {source destination : Kind} {actions : List Action}
    (h : Booked source destination actions)
    (hlast : source = .file → last = some (pair, destination)) :
    Keeps fs out last (Walk.perform rules pair source destination actions)
      fun after first => after = last ∧ Yields pair source destination first := by
  induction h with
  | nil => exact keeps_done fs out ⟨rfl, .inl rfl⟩
  | remove _ ih =>
      rw [Walk.perform, Walk.perform]
      exact keeps_emit_note fs out (by simp [Session.note, Event.removed?])
        (by simp [Session.note, Event.created?]) nofun ih
  | @copy rest hs hd _ ih =>
      have hcreated : (Event.emitted (.copy pair.source pair.destination)).created? last =
          some pair.destination := by
        rw [hlast hs]
        simp [Event.created?, hd]
      rw [Walk.perform, Walk.perform]
      refine keeps_emit_note fs out (by simp [Session.note, Event.removed?])
        (by simp [Session.note, hcreated]) ?_ ih
      rintro _ _ ⟨⟩
      exact ⟨destination, hlast hs⟩
  | @copyIfDifferent rest hs hd _ ih =>
      rw [Walk.perform]
      refine keeps_bind fs out (keeps_ask fs out (.same pair.source pair.destination)) ?_
      rintro _ equal rfl
      cases equal with
      | true => exact ih
      | false =>
          -- Copied onto a file: what is under version control stays under it.
          have hcopy := keeps_emit_copy fs out pair
          rw [← hd, ← hlast hs] at hcopy
          refine keeps_bind fs out hcopy ?_
          rintro _ _ rfl
          exact ih
  | mkdir _ ih =>
      rw [Walk.perform, Walk.perform]
      exact keeps_emit_note fs out (by simp [Session.note, Event.removed?])
        (by simp [Session.note, Event.created?]) nofun ih
  | @flagConflict rest _ ih =>
      rw [Walk.perform]
      refine keeps_bind fs out (keeps_log fs out _) ?_
      rintro _ _ rfl
      refine keeps_bind fs out (keeps_note_conflict fs out) ?_
      rintro _ _ rfl
      exact ih
  | @recurse rest h _ =>
      rw [Walk.perform]
      refine keeps_bind fs out (keeps_childNames fs out pair source destination) ?_
      rintro _ names rfl
      exact keeps_done fs out ⟨rfl, .inr ⟨names, rest, h, rfl⟩⟩

end

/-! ## The whole list -/

/-- What has to hold of the waiting tasks when `last` is the latest visit of a file. A task
without a source leaves `last` as it is; any other may change it to something unknown. So a
task that copies can only wait behind tasks without a source. -/
def Tidy : (last : Option (Pair × Kind)) → List Task → Prop
  | _, [] => True
  | last, .visit _ sourceGone _ :: rest =>
    if sourceGone then Tidy last rest else ∀ after, Tidy after rest
  | last, .resume pair source destination actions :: rest =>
    Booked source destination actions ∧ (source = .file → last = some (pair, destination)) ∧
      if source = .directory then ∀ after, Tidy after rest else Tidy last rest

/-- The visits of the children go in front of a tidy list: below a directory they may change
the latest visit of a file, below anything else they do not. -/
theorem tidy_visits {last : Option (Pair × Kind)} {pair : Pair} {source destination : Kind}
    {rest : List Task} (names : List Name)
    (h : if source = .directory then ∀ after, Tidy after rest else Tidy last rest) :
    Tidy last (Walk.visits pair source destination names ++ rest) := by
  induction names generalizing last with
  | nil =>
      by_cases hs : source = .directory
      · rw [if_pos hs] at h
        exact h last
      · rwa [if_neg hs] at h
  | cons name names ih =>
      -- Which visit of a file comes last is known only where no child has a source.
      by_cases hs : source = .directory
      · rw [if_pos hs] at h
        subst hs
        intro after
        exact ih (by simpa using h)
      · have hgone : (source != .directory) = true := by simpa using hs
        show if (source != .directory) = true then
          Tidy last (Walk.visits pair source destination names ++ rest) else ∀ after, _
        rw [if_pos hgone]
        exact ih h

section
variable {σ τ : Type} {rules : Rules} (fs : FileSystem σ) (out : Sink τ)
  {last : Option (Pair × Kind)}

/-- What taking the actions of a pair yields goes in front of a tidy list. -/
theorem tidy_of_yields {pair : Pair} {source destination : Kind} {first rest : List Task}
    (h : Yields pair source destination first)
    (hlast : source = .file → last = some (pair, destination))
    (hrest : if source = .directory then ∀ after, Tidy after rest else Tidy last rest) :
    Tidy last (first ++ rest) := by
  rcases h with rfl | ⟨names, actions, hactions, rfl⟩
  · show Tidy last (Walk.visits pair source destination [] ++ rest)
    exact tidy_visits [] hrest
  · rw [List.append_assoc]
    apply tidy_visits
    by_cases hs : source = .directory
    · -- the children have a source, so no file of this pair is copied behind them
      rw [if_pos hs] at hrest ⊢
      intro after
      refine ⟨hactions, ?_, ?_⟩
      · intro hfile
        rw [hs] at hfile
        cases hfile
      · rw [if_pos hs]
        exact hrest
    · -- no child has a source, so the visit of the pair itself stays the latest
      rw [if_neg hs] at hrest ⊢
      refine ⟨hactions, hlast, ?_⟩
      rw [if_neg hs]
      exact hrest

theorem keeps_requireText (path : Path) :
    Keeps fs out last (Walk.requireText path) fun after _ => after = last := by
  unfold Walk.requireText
  split
  · exact keeps_done fs out rfl
  · exact keeps_fail fs out _

theorem keeps_kindAt (gone : Bool) (path : Path) :
    Keeps fs out last (Walk.kindAt gone path)
      fun after kind => after = last ∧ (gone = true → kind = .missing) := by
  unfold Walk.kindAt
  split
  · exact keeps_done fs out ⟨rfl, fun _ => rfl⟩
  · next h =>
    exact keeps_mono fs out (keeps_ask fs out (.classify path)) fun _ _ hlast =>
      ⟨hlast, fun hg => absurd hg h⟩

/-- **One task.** The books are kept wherever the task ends, and the list is tidy again. -/
theorem keeps_step {t : Task} {rest : List Task} (h : Tidy last (t :: rest)) :
    Keeps fs out last (Walk.step rules t) fun after first => Tidy after (first ++ rest) := by
  cases t with
  | resume pair source destination actions =>
      obtain ⟨hactions, hlast, hrest⟩ := h
      refine keeps_mono fs out (keeps_perform fs out hactions hlast) ?_
      rintro _ first ⟨rfl, hfirst⟩
      exact tidy_of_yields hfirst hlast hrest
  | visit pair sourceGone destinationGone =>
      rw [Walk.step]
      refine keeps_bind fs out (keeps_requireText fs out pair.source) ?_
      rintro _ _ rfl
      refine keeps_bind fs out (keeps_requireText fs out pair.destination) ?_
      rintro _ _ rfl
      refine keeps_bind fs out (keeps_kindAt fs out sourceGone pair.source) ?_
      rintro _ source ⟨rfl, hgone⟩
      refine keeps_bind fs out (keeps_kindAt fs out destinationGone pair.destination) ?_
      rintro before destination ⟨rfl, -⟩
      refine keeps_bind fs out (keeps_log fs out _) ?_
      rintro _ _ rfl
      -- From here on this is the latest visit of a file, if its source is one.
      have hlast : source = .file → Event.fileVisit before
          (.logged (.visiting source destination pair)) = some (pair, destination) := by
        rintro rfl
        rfl
      refine keeps_mono fs out (keeps_perform fs out (booked_policy source destination) hlast) ?_
      rintro _ first ⟨rfl, hfirst⟩
      apply tidy_of_yields hfirst hlast
      cases sourceGone with
      | true =>  -- a missing source is no visit of a file
          rw [hgone rfl]
          exact h
      | false =>
          split
          · exact h
          · exact h _

/-- **The whole list.** The books are kept wherever the walk ends. -/
theorem keeps_workOff (budget : Nat) {tasks : List Task} (h : Tidy last tasks) :
    Keeps fs out last (Walk.workOff rules budget tasks) fun _ _ => True := by
  -- Each step may change `last`, so it is not fixed in the induction.
  induction budget generalizing last tasks with
  | zero =>
      cases tasks with
      | nil => exact keeps_done fs out trivial
      | cons t rest => exact keeps_fail fs out _
  | succ budget ih =>
      cases tasks with
      | nil => exact keeps_done fs out trivial
      | cons t rest => exact keeps_bind fs out (keeps_step fs out h) fun _ _ htidy => ih htidy

end

/-- **The session mirrors the commands.** For every file system and sink, whatever they reply
and wherever they fail, and for every session to begin with: wherever a walk ends, it has
queued for deletion exactly the paths of the `remove` commands accepted on the way, and for
addition exactly the targets of the accepted `mkdir` commands and of the accepted `copy`
commands whose visit did not find a file at the destination, both in the order of acceptance
and after what was queued before. -/
theorem session_mirrors_commands {σ τ : Type} (rules : Rules) (budget : Nat) (pair : Pair)
    (fs : FileSystem σ) (out : Sink τ) (start : Run σ τ) :
    let finish := ((walk rules budget pair).run fs out start).2
    ∃ events, finish.events.toList = start.events.toList ++ events ∧
      finish.session.deletes.toList =
        start.session.deletes.toList ++ events.filterMap Event.removed? ∧
      finish.session.adds.toList = start.session.adds.toList ++ created none events ∧
      CopiesInPlace none events := by
  have htidy : Tidy none [.visit pair false false] := fun _ => trivial
  have hkeeps : Keeps fs out none (walk rules budget pair) fun _ _ => True :=
    keeps_workOff fs out budget htidy
  obtain ⟨events, hevents, -⟩ := hkeeps start
  exact ⟨events, hevents.events_eq, hevents.deletes_eq, hevents.adds_eq, hevents.inPlace⟩

end TreePlan

import TreePlan.Cli.Program
import TreePlan.Proofs.Streaming

/-!
# Two ways to print a plan

The program prints a plan as lines while it is made, or as one document when it is complete. Here
it runs on a host that stands still but for what is printed (`Host.still`). A walk on such a host
is a walk with a sink that collects the commands (`carryOut_still`), so both ways come down to the
same run: the lines are those of its commands, and the document holds the same lines
(`documentLines?`).
-/

namespace TreePlan.Cli

/-! ## The lines in a document -/

def field? (key : String) : Json → Option Json
  | .record fields => fields.lookup key
  | _ => none

def lineOf? (document : Json) : Option String := do
  match ← field? "line" document with
  | .text line => some line
  | _ => none

def documentLines? (document : Json) : Option (List String) := do
  match ← field? "commands" document with
  | .list commands => commands.mapM lineOf?
  | _ => none

/-- No other field of a command is called like its line. -/
theorem lineOf_encodeWithLine {command : Command} {document : Json}
    (h : command.encodeWithLine? = some document) : lineOf? document = some command.line := by
  rw [Command.encodeWithLine?, Option.map_eq_some_iff] at h
  obtain ⟨fields, hfields, rfl⟩ := h
  have hother : fields.lookup "line" = none := by
    cases command <;>
      simp only [Command.fields?, bind, pure, Option.bind_eq_some_iff, Option.some.injEq] at hfields <;>
      grind
  simp [lineOf?, field?, List.lookup_cons, List.lookup_append, hother]

theorem mapM_lineOf {commands : List Command} {documents : List Json}
    (h : commands.mapM Command.encodeWithLine? = some documents) :
    documents.mapM lineOf? = some (commands.map Command.line) := by
  induction commands generalizing documents with
  | nil =>
      rw [List.mapM_nil] at h
      cases h
      rfl
  | cons command commands ih =>
      simp only [List.mapM_cons, bind, pure, Option.bind_eq_some_iff, Option.some.injEq] at h
      obtain ⟨first, hfirst, rest, hrest, rfl⟩ := h
      simp [lineOf_encodeWithLine hfirst, ih hrest]

/-- A plan of text has a document, and the document has the lines of its commands. -/
theorem exists_planDocument {commands : Array Command} {report : Report}
    (htext : ∀ command ∈ commands, command.IsText) (hreport : report.IsText) :
    ∃ document, planDocument? ⟨commands, report⟩ = some document ∧
      documentLines? document = some (commands.toList.map Command.line) := by
  have hall : ∀ command ∈ commands.toList, command.encodeWithLine?.isSome = true :=
    fun command hcommand => (Command.isSome_encode (htext command (by simpa using hcommand))).2
  obtain ⟨documents, hdocuments⟩ := exists_mapM hall
  obtain ⟨encoded, hencoded⟩ := Option.isSome_iff_exists.mp (Report.isSome_encode hreport)
  refine ⟨_, by rw [planDocument?, hdocuments, hencoded]; rfl, ?_⟩
  simpa [documentLines?, field?, List.lookup_cons] using mapM_lineOf hdocuments

/-! ## A host that stands still -/

/-- The two outputs of the program, with room for everything. -/
structure Console where
  results : Bytes := []
  messages : String := ""
  deriving DecidableEq, Repr

/-- A host on which nothing changes but what was printed. -/
def Host.still (answers : (q : Query) → Except Failure q.Answer)
    (workingDirectory : Except OsError Path) (files : Config.Files (StateM Console))
    (clock : Console → String) : Host (StateM Console) where
  workingDirectory := pure workingDirectory
  files := files
  answer q := pure (answers q)
  print text := fun console => (.ok (), { console with results := console.results ++ text })
  tell text := fun console => ((), { console with messages := console.messages ++ text })
  stamp := fun console => (clock console, console)

section
variable (answers : (q : Query) → Except Failure q.Answer)
  (workingDirectory : Except OsError Path) (files : Config.Files (StateM Console))
  (clock : Console → String) (filter : LogFilter)

/-- What was printed since the results were `base` is what `echo` makes of the commands. -/
def Shows (base : Bytes) (echo : Command → Bytes) (console : Console)
    (run : Run Unit (Array Command)) : Prop :=
  console.results = base ++ run.sink.toList.flatMap echo

variable {base : Bytes} {echo : Command → Bytes}
  {accept : Command → StateM Console (Except EmitError Unit)}

theorem reply_still
    (haccept : ∀ command console,
      accept command console = (.ok (), { console with results := console.results ++ echo command }))
    (r : Request) {start : Run Unit (Array Command)} {console : Console}
    (h : Shows base echo console start) :
    let after := Run.reply (.ofAnswers answers) (.collect none) r start
    ∃ heard, reply (Host.still answers workingDirectory files clock) filter accept r start.session
        console = ((after.1, after.2.session), heard) ∧
      Shows base echo heard after.2 := by
  intro after
  cases r with
  | ask query => exact ⟨console, rfl, h⟩
  | emit command =>
      refine ⟨{ console with results := console.results ++ echo command }, ?_, ?_⟩
      · simp only [reply, liftM, monadLift, MonadLift.monadLift, StateT.lift, bind, StateT.bind,
          haccept]
        rfl
      · show console.results ++ echo command = base ++ (start.sink.push command).toList.flatMap echo
        rw [Array.toList_push, List.flatMap_append, List.flatMap_singleton, ← List.append_assoc, h]
  | log record =>
      simp only [reply]
      split
      · exact ⟨_, rfl, h⟩
      · exact ⟨_, rfl, h⟩
  | note n => exact ⟨console, rfl, h⟩
  | review => exact ⟨console, rfl, h⟩

/-- A walk on a host that stands still is the walk with a sink that collects its commands. -/
theorem carryOut_still {α : Type}
    (haccept : ∀ command console,
      accept command console = (.ok (), { console with results := console.results ++ echo command }))
    (d : Dialogue α) {start : Run Unit (Array Command)} {console : Console}
    (h : Shows base echo console start) :
    let finish := d.run (.ofAnswers answers) (.collect none) start
    ∃ heard, d.carryOut (reply (Host.still answers workingDirectory files clock) filter accept)
        start.session console = ((finish.1, finish.2.session), heard) ∧
      Shows base echo heard finish.2 := by
  -- Host and run get the same replies, one after the other.
  induction d generalizing start console with
  | done | fail => exact ⟨console, rfl, h⟩
  | call r next ih =>
      intro finish
      obtain ⟨heard, hreply, hheard⟩ :=
        reply_still answers workingDirectory files clock filter haccept r h
      have hfinish : finish = (Dialogue.call r next).run (.ofAnswers answers) (.collect none) start :=
        rfl
      rw [Dialogue.run_call] at hfinish
      rw [Dialogue.carryOut]
      simp only [bind, StateT.bind, hreply]
      rcases hafter : Run.reply (.ofAnswers answers) (.collect none) r start with
        ⟨failure | answer, after⟩
      · -- a failed reply ends both
        rw [hafter] at hfinish hheard
        rw [hfinish]
        exact ⟨heard, rfl, hheard⟩
      · rw [hafter] at hfinish hheard
        rw [hfinish]
        exact ih answer hheard

/-- A walk that starts with an empty session. -/
theorem walked_still {α : Type}
    (haccept : ∀ command console,
      accept command console = (.ok (), { console with results := console.results ++ echo command }))
    (d : Dialogue α) (console : Console) :
    let collected := d.run (.ofAnswers answers) (.collect none) ⟨(), #[], {}, #[]⟩
    ∃ heard, (d.carryOut (reply (Host.still answers workingDirectory files clock) filter
        accept)).run' {} console = (collected.1, heard) ∧
      heard.results = console.results ++ collected.2.sink.toList.flatMap echo := by
  intro collected
  have hstart : Shows console.results echo console ⟨(), #[], {}, #[]⟩ := (List.append_nil _).symm
  obtain ⟨heard, hcarry, hheard⟩ :=
    carryOut_still answers workingDirectory files clock filter haccept d hstart
  refine ⟨heard, ?_, hheard⟩
  rw [StateT.run']
  simp only [Functor.map, StateT.map, bind]
  rw [hcarry]
  rfl

variable (config : Config) (console : Console)

theorem printPlan_still :
    let collected := (sync config.rules Walk.ampleBudget config.pairs).run (.ofAnswers answers)
      (.collect none) ⟨(), #[], {}, #[]⟩
    let printed := printPlan (Host.still answers workingDirectory files clock) filter config console
    printed.1 = (collected.1.map fun _ => ()).mapError planComplaint ∧
      printed.2.results = console.results ++ script collected.2.sink.toList := by
  intro collected printed
  let print (command : Command) : StateM Console (Except EmitError Unit) :=
    (Host.still answers workingDirectory files clock).print command.scriptLine
  have hprint : ∀ command console, print command console =
      (.ok (), { console with results := console.results ++ command.scriptLine }) :=
    fun _ _ => rfl
  obtain ⟨heard, hwalked, hheard⟩ := walked_still answers workingDirectory files clock filter
    hprint (sync config.rules Walk.ampleBudget config.pairs) console
  have hprinted : printed = (printPlan (Host.still answers workingDirectory files clock) filter
    config) console := rfl
  rw [printPlan, Dialogue.bind_apply, hwalked] at hprinted
  rw [hprinted]
  cases collected.1 with
  | ok report => exact ⟨rfl, hheard⟩
  | error failure => exact ⟨rfl, hheard⟩

/-- What is printed of a plan that is kept until it is complete. -/
theorem printPlanDocument_still :
    let collected := (sync config.rules Walk.ampleBudget config.pairs).run (.ofAnswers answers)
      (.collect none) ⟨(), #[], {}, #[]⟩
    let printed := printPlanDocument (Host.still answers workingDirectory files clock) filter
      config console
    match collected.1 with
    | .ok report => ∃ document,
        planDocument? ⟨collected.2.commands.toArray, report⟩ = some document ∧
          documentLines? document = some (collected.2.commands.map Command.line) ∧
          printed.1 = .ok () ∧
          printed.2.results = console.results ++ Bytes.ofString (document.render ++ "\n")
    | .error failure =>
        printed.1 = .error (planComplaint failure) ∧ printed.2.results = console.results := by
  intro collected printed
  -- The commands are only collected: nothing is printed before the document.
  let quietly (_ : Command) : StateM Console (Except EmitError Unit) := pure (.ok ())
  have hquietly : ∀ command console, quietly command console =
      (.ok (), { console with results := console.results ++ [] }) := by
    intro _ console
    rw [List.append_nil]
    rfl
  obtain ⟨heard, hwalked, hheard⟩ := walked_still answers workingDirectory files clock filter
    hquietly (plan config.rules Walk.ampleBudget config.pairs) console
  have hquiet : heard.results = console.results := by
    rw [hheard, List.flatMap_eq_nil_iff.mpr fun _ _ => rfl, List.append_nil]
  have hprinted : printed = (printPlanDocument (Host.still answers workingDirectory files clock)
    filter config) console := rfl
  rw [printPlanDocument, Dialogue.bind_apply, converse, hwalked] at hprinted
  have hplanned : ((plan config.rules Walk.ampleBudget config.pairs).run (.ofAnswers answers)
      (.collect none) ⟨(), #[], {}, #[]⟩).1 =
        collected.1.map fun report => ⟨collected.2.commands.toArray, report⟩ :=
    run_plan Sink.acceptsAll_collect config.pairs () #[]
  obtain ⟨hcommands, hreport⟩ := Sync.isText_of_acceptsAll (.ofAnswers answers) config.rules
    Walk.ampleBudget config.pairs Sink.acceptsAll_collect () #[]
  cases hcollected : collected.1 with
  | error failure =>
      rw [hplanned, hcollected] at hprinted
      rw [hprinted]
      exact ⟨rfl, hquiet⟩
  | ok report =>
      have htext : ∀ command ∈ collected.2.commands.toArray, command.IsText := by
        intro command hcommand
        exact hcommands command (List.mem_toArray.mp hcommand)
      obtain ⟨document, hdocument, hlines⟩ := exists_planDocument htext (hreport report hcollected)
      rw [hplanned, hcollected, Except.map] at hprinted
      simp only [hdocument] at hprinted
      rw [hprinted, ← hquiet]
      exact ⟨document, hdocument, hlines, rfl, rfl⟩

end

/-- A script is the text of the lines of its commands. -/
theorem script_eq_textOf (commands : List Command) :
    script commands = Bytes.ofString (textOf (commands.map Command.line)) := by
  rw [script_eq_ofChars, Bytes.ofString, textOf]
  simp [List.flatMap_map, Command.line]

/-- **The two output modes agree.** Whatever the file system answers, a synchronisation that is
streamed into a script ends as the plan that is kept does, with the script of the same commands; and
with those before a failure, none of them for the version control. So on a host that stands still
the lines that are printed are those in the document, each with its end, and if the walk fails both
ways complain alike, while there is no document. -/
theorem output_modes_agree (config : Config) :
    (∀ {σ : Type} (fs : FileSystem σ) (files : σ) (budget : Nat),
      let walks := sync config.rules budget config.pairs
      let streamed := walks.run fs (.script {}) ⟨files, {}, {}, #[]⟩
      let collected := walks.run fs (.collect none) ⟨files, #[], {}, #[]⟩
      let planned :=
        (plan config.rules budget config.pairs).run fs (.collect none) ⟨files, #[], {}, #[]⟩
      streamed.2.sink.received = script collected.2.sink.toList ∧
        match collected.1 with
        | .ok report => streamed.1 = .ok report ∧ planned.1 = .ok ⟨collected.2.sink, report⟩
        | .error failure =>
            streamed.1 = .error failure ∧ planned.1 = .error failure ∧
              ∀ command ∈ collected.2.sink, command.isVersionControl = false) ∧
    ∀ (answers : (q : Query) → Except Failure q.Answer) (workingDirectory : Except OsError Path)
      (files : Config.Files (StateM Console)) (clock : Console → String) (filter : LogFilter)
      (console : Console),
      let host := Host.still answers workingDirectory files clock
      let collected := (sync config.rules Walk.ampleBudget config.pairs).run (.ofAnswers answers)
        (.collect none) ⟨(), #[], {}, #[]⟩
      let printed := printPlan host filter config console
      let documented := printPlanDocument host filter config console
      printed.2.results = console.results ++ script collected.2.sink.toList ∧
        match collected.1 with
        | .ok report =>
            printed.1 = .ok () ∧ documented.1 = .ok () ∧
              ∃ document lines, planDocument? ⟨collected.2.sink, report⟩ = some document ∧
                documented.2.results =
                  console.results ++ Bytes.ofString (document.render ++ "\n") ∧
                documentLines? document = some lines ∧
                printed.2.results = console.results ++ Bytes.ofString (textOf lines)
        | .error failure =>
            printed.1 = .error (planComplaint failure) ∧
              documented.1 = .error (planComplaint failure) ∧
              documented.2.results = console.results := by
  have hkept : ∀ {σ : Type} (fs : FileSystem σ) (files : σ) (budget : Nat),
      let collected := (sync config.rules budget config.pairs).run fs (.collect none)
        ⟨files, #[], {}, #[]⟩
      collected.2.sink = collected.2.commands.toArray := fun fs files budget =>
    Dialogue.run_keeps fs Sink.keeps_collect _ rfl
  constructor
  · -- what is streamed and what is collected, on any file system
    intro σ fs files budget walks streamed collected planned
    have hsink : collected.2.sink = collected.2.commands.toArray := hkept fs files budget
    have hstart : Run.Beside (⟨files, {}, {}, #[]⟩ : Run σ Output)
        (⟨files, #[], {}, #[]⟩ : Run σ (Array Command)) := ⟨rfl, rfl, rfl⟩
    obtain ⟨hsame, hbeside⟩ :=
      Dialogue.run_beside fs Sink.acceptsAll_script Sink.acceptsAll_collect walks hstart
    have hreceived : streamed.2.sink.received = script streamed.2.commands :=
      Dialogue.run_keeps fs Sink.keeps_script _ rfl
    have hplanned : planned.1 = collected.1.map fun report => ⟨collected.2.sink, report⟩ := by
      rw [hsink]
      exact run_plan Sink.acceptsAll_collect config.pairs files #[]
    have hstreamed : streamed.1 = collected.1 := hsame
    constructor
    · rw [hreceived, hsink]
      exact congrArg script hbeside.commands
    · rw [hstreamed, hplanned]
      cases hcollected : collected.1 with
      | ok report => exact ⟨rfl, rfl⟩
      | error failure =>  -- without a report there is no batch
          refine ⟨rfl, rfl, fun command hcommand => ?_⟩
          rw [hsink, List.mem_toArray] at hcommand
          exact Sync.operations_of_error fs config.rules budget config.pairs
            Sink.acceptsAll_collect (Prod.ext hcollected rfl) command hcommand
  · -- what is printed, on a host that stands still
    intro answers workingDirectory files clock filter console host collected printed documented
    have hsink : collected.2.sink = collected.2.commands.toArray := hkept _ () _
    obtain ⟨hprinted, hresults⟩ :=
      printPlan_still answers workingDirectory files clock filter config console
    have hdocumented :=
      printPlanDocument_still answers workingDirectory files clock filter config console
    dsimp only at hdocumented
    refine ⟨hresults, ?_⟩
    cases hcollected : collected.1 with
    | ok report =>
        rw [hcollected] at hprinted hdocumented
        obtain ⟨document, hdocument, hlines, hok, hshown⟩ := hdocumented
        rw [← hsink] at hdocument
        refine ⟨hprinted, hok, document, _, hdocument, hshown, hlines, ?_⟩
        rw [← script_eq_textOf]
        rw [hresults, hsink]
    | error failure =>
        rw [hcollected] at hprinted hdocumented
        exact ⟨hprinted, hdocumented⟩

end TreePlan.Cli

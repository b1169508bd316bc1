import TreePlan.Proofs.Containment
import TreePlan.Proofs.Faithful

/-!
# What a program takes for a path

A shell hands the words of a command line to a program as they are, and the program reads them by
conventions of its own (`Argv.read`): a word that starts with a dash is an option, and the version
control takes what follows the last `@` of a target for a revision. So a command of text is not
always read as it is meant (`Command.ReadAsMeant`).

* `Command.readAsMeant_iff` says for which paths it is.
* `Sync.concerns_run` says what the paths of all commands have in common with the pairs and with the
  names that are listed.
* `commands_read_as_meant` puts both together. No name below a directory is taken for an option, but
  the side of a pair can be; and an `@` in any name reaches the version control.
-/

namespace TreePlan

/-! ## Words as a program reads them -/

namespace Argv

def dash : UInt8 := 0x2D

def atSign : UInt8 := 0x40

/-- The word behind which there are no options. -/
def endOfOptions : Bytes := [dash, dash]

def IsOption (word : Bytes) : Prop := 1 < word.length ∧ word.head? = some dash

instance (word : Bytes) : Decidable (IsOption word) :=
  inferInstanceAs (Decidable (_ ∧ _))

structure Sorted where
  options : List Bytes := []
  operands : List Bytes := []
  deriving DecidableEq, Repr

/-- Sorts words; the word behind one of the options in `valued` is its argument. `owed` says that
the first word is an argument. -/
def sort (valued : List Bytes) : (owed : Bool) → List Bytes → Sorted
  | _, [] => {}
  | true, word :: rest =>
      let more := sort valued false rest
      { more with options := word :: more.options }
  | false, word :: rest =>
      if word = endOfOptions then { operands := rest }
      else if IsOption word then
        let more := sort valued (valued.contains word) rest
        { more with options := word :: more.options }
      else
        let more := sort valued false rest
        { more with operands := word :: more.operands }

/-- The path in a target of the version control: what is in front of the last `@`, if there is
one. -/
def unpegged : Bytes → Bytes
  | [] => []
  | byte :: rest => if byte = atSign ∧ atSign ∉ rest then [] else byte :: unpegged rest

structure Reading where
  called : List Bytes
  options : List Bytes
  operands : List Bytes
  deriving DecidableEq, Repr

/-- Reads words as the program that the first one names. The version control is told by its first
operand what to do. -/
def read : List Bytes → Option Reading
  | [] => none
  | program :: words =>
      if program = Bytes.ofString "svn" then
        let sorted := sort [Bytes.ofString "-m"] false words
        match sorted.operands with
        | [] => none
        | verb :: targets => some ⟨[program, verb], sorted.options, targets.map unpegged⟩
      else
        let sorted := sort [] false words
        some ⟨[program], sorted.options, sorted.operands⟩

variable {valued words rest : List Bytes} {word : Bytes}

/-- The word that ends the options would be one itself. -/
theorem isOption_endOfOptions : IsOption endOfOptions := ⟨Nat.lt_succ_self 1, rfl⟩

theorem sort_operand (h : ¬ IsOption word) (rest : List Bytes) :
    sort valued false (word :: rest) =
      { sort valued false rest with operands := word :: (sort valued false rest).operands } := by
  have hend : word ≠ endOfOptions := by
    rintro rfl
    exact h isOption_endOfOptions
  rw [sort, if_neg hend, if_neg h]

theorem sort_of_not_isOption (h : ∀ word ∈ words, ¬ IsOption word) :
    sort valued false words = ⟨[], words⟩ := by
  induction words with
  | nil => rfl
  | cons word rest ih =>
      obtain ⟨hword, hrest⟩ := List.forall_mem_cons.mp h
      rw [sort_operand hword, ih hrest]

theorem length_operands_le (owed : Bool) (words : List Bytes) :
    (sort valued owed words).operands.length ≤ words.length := by
  induction words generalizing owed with
  | nil => cases owed <;> exact Nat.le_refl _
  | cons word rest ih =>
      cases owed with
      | true => exact Nat.le_succ_of_le (ih false)
      | false =>
          unfold sort
          split
          · exact Nat.le_succ _
          split
          · exact Nat.le_succ_of_le (ih _)
          · exact Nat.succ_le_succ (ih false)

/-- Whatever is taken for an option is missing among the operands. -/
theorem not_isOption_of_length (h : (sort valued false words).operands.length = words.length) :
    ∀ word ∈ words, ¬ IsOption word := by
  induction words with
  | nil => exact List.forall_mem_nil _
  | cons word rest ih =>
      have hword : ¬ IsOption word := by
        intro hoption
        unfold sort at h
        split at h
        · exact absurd h (Nat.ne_of_lt (Nat.lt_succ_self _))
        · exact absurd h (Nat.ne_of_lt (Nat.lt_succ_of_le (length_operands_le _ _)))
      rw [sort_operand hword] at h
      exact List.forall_mem_cons.mpr ⟨hword, ih (Nat.succ_inj.mp h)⟩

theorem unpegged_eq_self_iff {target : Bytes} : unpegged target = target ↔ atSign ∉ target := by
  induction target with
  | nil => simp [unpegged]
  | cons byte rest ih =>
      unfold unpegged
      split
      · next hlast => simp [hlast.1]
      · next hgoes =>
          rw [List.cons_inj_right, ih, List.mem_cons, not_or]
          grind

end Argv

/-! ## Commands as they are meant -/

namespace Command

/-- What a command calls: a program, and with the version control what it is to do. -/
def called : Command → List String
  | .remove .. => ["rm"]
  | .copy .. => ["cp"]
  | .mkdir _ => ["mkdir"]
  | .delete _ => ["svn", "delete"]
  | .commit .. => ["svn", "commit"]
  | .add _ => ["svn", "add"]

def flags : Command → List String
  | .remove _ false | .mkdir _ | .delete _ => []
  | .remove _ true => ["-r"]
  | .copy .. => ["-f"]
  | .commit message _ => ["-m", message]
  | .add _ => ["--depth=empty"]

/-- The reading that a command is meant to get: its own options, and its paths as they are. -/
def meaning (command : Command) : Argv.Reading :=
  ⟨command.called.map Bytes.ofString, command.flags.map Bytes.ofString,
    command.paths.map Path.bytes⟩

def ReadAsMeant (command : Command) : Prop :=
  Argv.read (command.words.map Bytes.ofString) = some command.meaning

instance (command : Command) : Decidable command.ReadAsMeant :=
  inferInstanceAs (Decidable (_ = _))

open Argv

/-- What stands in front of the paths is read as it is meant, whatever they are. -/
theorem exists_read_words {command : Command} (h : command.IsText) :
    ∃ valued, ∀ sorted, sort valued false (command.paths.map Path.bytes) = sorted →
      Argv.read (command.words.map Bytes.ofString) =
        some ⟨command.called.map Bytes.ofString,
          command.flags.map Bytes.ofString ++ sorted.options,
          if command.isVersionControl then sorted.operands.map unpegged else sorted.operands⟩ := by
  rw [words_bytes h]
  cases command with
  | remove path recursive =>
      refine ⟨[], ?_⟩
      rintro _ rfl
      cases recursive <;> rfl
  | copy | mkdir =>
      refine ⟨[], ?_⟩
      rintro _ rfl
      rfl
  | delete | commit | add =>
      refine ⟨[Bytes.ofString "-m"], ?_⟩
      rintro _ rfl
      rfl

/-- No path of the command can be taken for an option. -/
def IsOptionFree (command : Command) : Prop :=
  ∀ path ∈ command.paths, ¬ IsOption path.bytes

/-- No path of the command has what looks like a revision, if that matters. -/
def IsPegFree (command : Command) : Prop :=
  command.isVersionControl = true → ∀ path ∈ command.paths, atSign ∉ path.bytes

/-- **What is read as it is meant**: only a leading dash, and for the version control an `@`, make
a difference. -/
theorem readAsMeant_iff {command : Command} (h : command.IsText) :
    command.ReadAsMeant ↔ command.IsOptionFree ∧ command.IsPegFree := by
  obtain ⟨valued, hread⟩ := exists_read_words h
  constructor
  · intro hmeant
    rw [ReadAsMeant, hread _ rfl, Option.some_inj, meaning, Reading.mk.injEq] at hmeant
    have htargets := hmeant.2.2
    -- No word gets lost, so all of them are operands.
    have hlength : (sort valued false (command.paths.map Path.bytes)).operands.length =
        (command.paths.map Path.bytes).length := by
      have hcount := congrArg List.length htargets
      rwa [apply_ite List.length, List.length_map unpegged, ite_self] at hcount
    have hwords := not_isOption_of_length hlength
    refine ⟨fun path hpath => hwords _ (List.mem_map_of_mem hpath), fun hvc path hpath => ?_⟩
    rw [sort_of_not_isOption hwords, if_pos hvc, List.map_map, List.map_inj_left] at htargets
    exact unpegged_eq_self_iff.mp (htargets path hpath)
  · rintro ⟨hoption, hpeg⟩
    have hsorted : sort valued false (command.paths.map Path.bytes) =
        ⟨[], command.paths.map Path.bytes⟩ :=
      sort_of_not_isOption (List.forall_mem_map.mpr hoption)
    have htargets : (if command.isVersionControl then
        (command.paths.map Path.bytes).map unpegged else command.paths.map Path.bytes) =
          command.paths.map Path.bytes := by
      split
      · next hvc =>
          rw [List.map_map, List.map_inj_left]
          exact fun path hpath => unpegged_eq_self_iff.mpr (hpeg hvc path hpath)
      · rfl
    rw [ReadAsMeant, hread _ hsorted, List.append_nil, htargets]
    rfl

end Command

/-! ## The paths of a synchronisation -/

section
variable {σ τ : Type} {fs : FileSystem σ} {out : Sink τ} {rules : Rules} {P : Path → Prop}
  {N : Name → Prop}

/-- What a pair has and names keep, the pairs below it have. -/
theorem Led.forall_below {may : (q : Query) → q.Answer → Prop} {root : Pair} {rel : List Name}
    (hlist : ∀ path names, may (.list path) names → ∀ name ∈ names, N name)
    (hchild : ∀ base name, P base → N name → P (base.child name))
    (hroot : P root.source ∧ P root.destination) (h : Led may rules root rel) :
    P (root.below rel).source ∧ P (root.below rel).destination := by
  induction h with
  | here => exact hroot
  | child _ hname ih =>
      rw [root.below_concat]
      have hlisted : N _ := hname.of_names hlist
      exact ⟨hchild _ _ ih.1 hlisted, hchild _ _ ih.2 hlisted⟩

namespace Sync
open Dialogue

/-- All paths that walks are concerned with have what the pairs have and names keep. -/
theorem stays_paths_walkAll {may : (q : Query) → q.Answer → Prop} (budget : Nat) {pairs : List Pair}
    (hlist : ∀ path names, may (.list path) names → ∀ name ∈ names, N name)
    (hchild : ∀ base name, P base → N name → P (base.child name))
    (hpairs : ∀ pair ∈ pairs, P pair.source ∧ P pair.destination) :
    Stays may (fun r => ∀ path ∈ r.paths, P path) (fun _ => True) (walkAll rules budget pairs) := by
  refine stays_walkAll (fun _ => List.forall_mem_nil _) fun pair hpair => ?_
  refine (stays_walk may rules budget pair).mono ?_ fun _ => id
  rintro r ⟨rel, hled, hof⟩ path hpath
  obtain ⟨hsource, hdestination⟩ := hled.forall_below hlist hchild (hpairs pair hpair)
  rcases hof.eq_of_mem_paths hpath with rfl | rfl
  · exact hsource
  · exact hdestination

end Sync

/-- All paths that were handed over or queued satisfy `P`. -/
structure Run.Concerns (P : Path → Prop) (run : Run σ (List Command × τ)) : Prop where
  handed : ∀ command ∈ run.sink.1, ∀ path ∈ command.paths, P path
  adds : ∀ path ∈ run.session.adds.toList, P path
  deletes : ∀ path ∈ run.session.deletes.toList, P path

theorem Run.concerns_start (files : σ) (sink : τ) :
    Run.Concerns P ⟨files, ([], sink), {}, #[]⟩ where
  handed := List.forall_mem_nil _
  adds := List.forall_mem_nil _
  deletes := List.forall_mem_nil _

theorem Run.Concerns.requested {start finish : Run σ (List Command × τ)} {trace : List Request}
    (h : start.Concerns P) (hpaths : ∀ r ∈ trace, ∀ path ∈ r.paths, P path)
    (hrequested : Requested trace start finish) : finish.Concerns P where
  handed := by
    rw [hrequested.handed]
    refine List.forall_mem_append.mpr ⟨h.handed, fun command hcommand path hpath => ?_⟩
    obtain ⟨r, hr, hemits⟩ := List.mem_filterMap.mp hcommand
    exact hpaths r hr path (Request.mem_paths_of_command hemits hpath)
  adds := by
    rw [hrequested.adds]
    refine List.forall_mem_append.mpr ⟨h.adds, fun path hpath => ?_⟩
    obtain ⟨r, hr, hadds⟩ := List.mem_filterMap.mp hpath
    exact hpaths r hr path (Request.mem_paths_of_queued (.inl hadds))
  deletes := by
    rw [hrequested.deletes]
    refine List.forall_mem_append.mpr ⟨h.deletes, fun path hpath => ?_⟩
    obtain ⟨r, hr, hdeletes⟩ := List.mem_filterMap.mp hpath
    exact hpaths r hr path (Request.mem_paths_of_queued (.inr hdeletes))

/-- **All paths of a synchronisation** have what its pairs have, if the names that are listed keep
it on the way down. -/
theorem Sync.concerns_run (budget : Nat) {pairs : List Pair}
    (hlist : ∀ path names, fs.Gives (.list path) names → ∀ name ∈ names, N name)
    (hchild : ∀ base name, P base → N name → P (base.child name))
    (hpairs : ∀ pair ∈ pairs, P pair.source ∧ P pair.destination)
    {start : Run σ (List Command × τ)} (h : start.Concerns P) :
    ((sync rules budget pairs).run fs out.watch start).2.Concerns P := by
  obtain ⟨trace, hpaths, hrequested⟩ :=
    (stays_paths_walkAll budget hlist hchild hpairs).exists_requested_of_gives fs out start
      fun _ _ => id
  have hwalks := h.requested hpaths hrequested
  rcases hwalked : (walkAll rules budget pairs).run fs out.watch start with
    ⟨failure | ⟨⟩, walked⟩
  · -- a walk failed, so there are no batches
    rw [hwalked] at hwalks
    rw [run_sync_of_error hwalked]
    exact hwalks
  · rw [hwalked] at hwalks
    -- The batches are about what was queued by now.
    have hbatches : ∀ command ∈ batches rules walked.session,
        ∀ path ∈ (Request.emit command).paths, P path :=
      forall_paths_of_mem_batches hwalks.adds hwalks.deletes
    have hclosing : Dialogue.Only (fun r => ∀ path ∈ r.paths, P path)
        (conclude (batches rules walked.session)) :=
      only_conclude hbatches (List.forall_mem_nil _) fun _ => List.forall_mem_nil _
    obtain ⟨trace, hpaths, hrequested⟩ :=
      (hclosing.stays fun _ _ => True).exists_requested fs out walked
    rw [run_sync_of_ok hwalked]
    exact hwalks.requested hpaths hrequested

end

/-! ## Which paths are safe -/

namespace Path
open Argv

/-- The path starts with something that is not a dash. -/
def StartsPlain (path : Path) : Prop := ∃ byte ∈ path.bytes.head?, byte ≠ dash

instance (path : Path) : Decidable path.StartsPlain :=
  inferInstanceAs (Decidable (∃ byte ∈ path.bytes.head?, byte ≠ dash))

variable {base path : Path} {name : Name}

theorem StartsPlain.not_isOption (h : path.StartsPlain) : ¬ IsOption path.bytes := by
  rintro ⟨-, hdash⟩
  obtain ⟨byte, hbyte, hplain⟩ := h
  exact hplain (Option.some_inj.mp (hbyte.symm.trans hdash))

/-- Going down does not change how a path starts. -/
theorem StartsPlain.child (h : base.StartsPlain) (name : Name) : (base.child name).StartsPlain := by
  obtain ⟨byte, hbyte, hplain⟩ := h
  have happend : ∀ more, (base.bytes ++ more).head? = some byte := by
    intro more
    rw [List.head?_append, hbyte, Option.some_or]
  have hne : base.bytes ≠ [] := List.ne_nil_of_mem (List.mem_of_mem_head? hbyte)
  unfold Path.child join
  rw [if_neg hne]
  split
  · next habsolute => exact ⟨Bytes.slash, of_decide_eq_true habsolute, by decide⟩
  · split
    · exact ⟨byte, happend _, hplain⟩
    · exact ⟨byte, happend _, hplain⟩

theorem atSign_notMem_child (hbase : atSign ∉ base.bytes) (hname : atSign ∉ name) :
    atSign ∉ (base.child name).bytes := by
  have hslash : atSign ≠ Bytes.slash := by decide
  unfold Path.child join
  grind

end Path

open Argv in
/-- **Commands are read as they are meant**, unless a path gets in the way. Wherever a
synchronisation ends, of all commands that were handed over exactly those are read with their own
options and their own paths in which no path can be taken for an option and, in what is for the
version control, no path holds an `@`. If no side of a pair is empty or starts with a dash, this is
so for all operations on files, whatever is listed; and for all commands if neither the pairs nor
any name that is listed hold an `@`. -/
theorem commands_read_as_meant {σ τ : Type} (fs : FileSystem σ) (out : Sink τ) (rules : Rules)
    (budget : Nat) (pairs : List Pair) (files : σ) (sink : τ) :
    let outcome := (sync rules budget pairs).run fs out ⟨files, sink, {}, #[]⟩
    let watched := (sync rules budget pairs).run fs out.watch ⟨files, ([], sink), {}, #[]⟩
    outcome = (watched.1, watched.2.unwatch) ∧
      (∀ command ∈ watched.2.sink.1,
        command.ReadAsMeant ↔ command.IsOptionFree ∧ command.IsPegFree) ∧
      ((∀ pair ∈ pairs, pair.source.StartsPlain ∧ pair.destination.StartsPlain) →
        (∀ command ∈ watched.2.sink.1, command.isVersionControl = false → command.ReadAsMeant) ∧
          ((∀ pair ∈ pairs, atSign ∉ pair.source.bytes ∧ atSign ∉ pair.destination.bytes) →
            (∀ path names, fs.Gives (.list path) names → ∀ name ∈ names, atSign ∉ name) →
              ∀ command ∈ watched.2.sink.1, command.ReadAsMeant)) := by
  intro outcome watched
  have hwatch : outcome = (watched.1, watched.2.unwatch) :=
    Dialogue.run_watch (sync rules budget pairs) ⟨files, ([], sink), {}, #[]⟩
  have htext : watched.2.Faithful := faithful_sync budget pairs (Run.faithful_start files sink)
  have hiff : ∀ command ∈ watched.2.sink.1,
      (command.ReadAsMeant ↔ command.IsOptionFree ∧ command.IsPegFree) :=
    fun command hcommand => Command.readAsMeant_iff (htext.handed command hcommand)
  refine ⟨hwatch, hiff, fun hplain => ?_⟩
  -- A child starts as its parent does, whatever its name.
  have hoption : ∀ command ∈ watched.2.sink.1, command.IsOptionFree := by
    have hconcerns : watched.2.Concerns Path.StartsPlain :=
      Sync.concerns_run budget (fun _ _ _ _ _ => trivial) (fun _ name h (_ : True) => h.child name)
        hplain (Run.concerns_start files sink)
    exact fun command hcommand path hpath => (hconcerns.handed command hcommand path hpath).not_isOption
  constructor
  · intro command hcommand hfiles
    have hpeg : command.IsPegFree := fun hvc => absurd (hfiles.symm.trans hvc) Bool.false_ne_true
    exact (hiff command hcommand).mpr ⟨hoption command hcommand, hpeg⟩
  · intro hsides hnames command hcommand
    -- But the name may hold an `@`, so here the listings count.
    have hconcerns : watched.2.Concerns fun path => atSign ∉ path.bytes :=
      Sync.concerns_run budget hnames (fun _ _ => Path.atSign_notMem_child) hsides
        (Run.concerns_start files sink)
    have hpeg : command.IsPegFree := fun _ => hconcerns.handed command hcommand
    exact (hiff command hcommand).mpr ⟨hoption command hcommand, hpeg⟩

open Argv in
/-- An entry whose name starts with a dash does no harm below a directory. -/
theorem commands_read_as_meant_plain :
    let table : Table := ⟨[(.ofString "s", .directory [Bytes.ofString "-x"]),
      (.ofString "s/-x", .file [])], []⟩
    let pairs : List Pair := [⟨.ofString "s", .ofString "d"⟩]
    let watched := (sync {} 10 pairs).run table.fileSystem (Sink.collect none).watch
      ⟨(), ([], #[]), {}, #[]⟩
    (∀ pair ∈ pairs, pair.source.StartsPlain ∧ pair.destination.StartsPlain) ∧
      (∀ pair ∈ pairs, atSign ∉ pair.source.bytes ∧ atSign ∉ pair.destination.bytes) ∧
      (∀ path names, table.fileSystem.Gives (.list path) names → ∀ name ∈ names, atSign ∉ name) ∧
      watched.2.sink.1 = [.mkdir (.ofString "d"), .copy (.ofString "s/-x") (.ofString "d/-x"),
        .add [.ofString "d", .ofString "d/-x"]] ∧
      ∀ command ∈ watched.2.sink.1, command.ReadAsMeant := by
  intro table pairs watched
  have hplain : ∀ pair ∈ pairs, pair.source.StartsPlain ∧ pair.destination.StartsPlain := by
    decide +kernel
  have hsides : ∀ pair ∈ pairs,
      atSign ∉ pair.source.bytes ∧ atSign ∉ pair.destination.bytes := by
    decide +kernel
  have hnames : ∀ path names, table.fileSystem.Gives (.list path) names →
      ∀ name ∈ names, atSign ∉ name := by
    intro path names
    exact table.forall_mem_of_gives (by decide +kernel)
  have hhanded : watched.2.sink.1 = [.mkdir (.ofString "d"),
      .copy (.ofString "s/-x") (.ofString "d/-x"), .add [.ofString "d", .ofString "d/-x"]] := by
    decide +kernel
  have hmeant := commands_read_as_meant table.fileSystem (.collect none) {} 10 pairs () #[]
  exact ⟨hplain, hsides, hnames, hhanded, (hmeant.2.2 hplain).2 hsides hnames⟩

/-- A directory that is called like an option is not made, and an entry with an `@` in its name is
not put under version control. -/
theorem commands_read_astray :
    let table : Table := ⟨[(.ofString "s", .directory [Bytes.ofString "a@2"]),
      (.ofString "s/a@2", .file []), (.ofString "t", .directory [])], []⟩
    let pairs : List Pair := [⟨.ofString "s", .ofString "d"⟩, ⟨.ofString "t", .ofString "-p"⟩]
    let outcome := (sync {} 10 pairs).run table.fileSystem (.collect none) ⟨(), #[], {}, #[]⟩
    let made : Command := .mkdir (.ofString "-p")
    let added : Command := .add [.ofString "d", .ofString "d/a@2", .ofString "-p"]
    outcome.2.commands = [.mkdir (.ofString "d"),
        .copy (.ofString "s/a@2") (.ofString "d/a@2"), made, added] ∧
      ¬ made.ReadAsMeant ∧ ¬ added.ReadAsMeant ∧
      Argv.read (made.words.map Bytes.ofString) =
        some ⟨[Bytes.ofString "mkdir"], [Bytes.ofString "-p"], []⟩ ∧
      Argv.read (added.words.map Bytes.ofString) =
        some ⟨[Bytes.ofString "svn", Bytes.ofString "add"],
          [Bytes.ofString "--depth=empty", Bytes.ofString "-p"],
          [Bytes.ofString "d", Bytes.ofString "d/a"]⟩ := by
  decide +kernel

end TreePlan

import TreePlan.Sink
import TreePlan.Proofs.Shell.Reader
import TreePlan.Proofs.Text.Utf8

/-!
# Scripts determine their commands

A script is a text of command lines. Reading it takes three steps back: the bytes are read as
characters, the characters as lines of words, and each line as the command whose words it has
(`ofWords?`). `readScript_script` says that they lead back to the commands wherever all paths are
text, whatever characters are in them.

`Sink.takeAll` hands commands to a sink one after another. A sink that writes a script and takes
all of them has received the script of the commands (`received_takeAll`).
-/

namespace TreePlan

/-! ## Paths and their texts -/

theorem Bytes.ofChars_append (front back : List Char) :
    Bytes.ofChars (front ++ back) = Bytes.ofChars front ++ Bytes.ofChars back :=
  List.flatMap_append

/-- A path that is text is exactly what is shown for it. -/
theorem Path.ofString_shown {path : Path} (htext : path.isText = true) :
    Path.ofString path.shown = path := by
  rw [Path.ofString, Path.shown, Bytes.ofString, String.toList_ofList]
  exact congrArg Path.mk (Utf8.ofChars_lossy htext)

theorem Path.isText_ofString (s : String) : (Path.ofString s).isText = true := by
  rw [Path.isText, Path.ofString, Bytes.ofString, Utf8.isText, Utf8.decode?_ofChars]
  rfl

namespace Command

/-- All paths of the command are text. -/
def IsText (command : Command) : Prop := ∀ path ∈ command.paths, path.isText = true

instance (command : Command) : Decidable command.IsText :=
  inferInstanceAs (Decidable (∀ path ∈ command.paths, path.isText = true))

/-! ## Commands and their words -/

def ofWords? : List String → Option Command
  | ["rm", path] => some (.remove (.ofString path) false)
  | ["rm", "-r", path] => some (.remove (.ofString path) true)
  | ["cp", "-f", source, target] => some (.copy (.ofString source) (.ofString target))
  | ["mkdir", path] => some (.mkdir (.ofString path))
  | "svn" :: "delete" :: paths => some (.delete (paths.map .ofString))
  | "svn" :: "commit" :: "-m" :: message :: paths => some (.commit message (paths.map .ofString))
  | "svn" :: "add" :: "--depth=empty" :: paths => some (.add (paths.map .ofString))
  | _ => none

theorem map_ofString_shown {paths : List Path} (htext : ∀ path ∈ paths, path.isText = true) :
    (paths.map Path.shown).map Path.ofString = paths := by
  rw [List.map_map]
  exact (List.map_congr_left fun path h => Path.ofString_shown (htext path h)).trans
    (List.map_id paths)

theorem ofWords?_words {command : Command} (htext : command.IsText) :
    ofWords? command.words = some command := by
  cases command with
  | remove path recursive =>
      have hpath : Path.ofString path.shown = path := Path.ofString_shown (htext path (.head _))
      cases recursive with
      | false => simp [words, ofWords?, hpath]
      | true => simp [words, ofWords?, hpath]
  | copy source target =>
      have hsource := Path.ofString_shown (htext source (.head _))
      have htarget := Path.ofString_shown (htext target (.tail _ (.head _)))
      simp [words, ofWords?, hsource, htarget]
  | mkdir path =>
      have hpath : Path.ofString path.shown = path := Path.ofString_shown (htext path (.head _))
      simp [words, ofWords?, hpath]
  | delete paths =>
      have hpaths : (paths.map Path.shown).map Path.ofString = paths := map_ofString_shown htext
      simp only [words, ofWords?, List.cons_append, List.nil_append, hpaths]
  | commit message paths =>
      have hpaths : (paths.map Path.shown).map Path.ofString = paths := map_ofString_shown htext
      simp only [words, ofWords?, List.cons_append, List.nil_append, hpaths]
  | add paths =>
      have hpaths : (paths.map Path.shown).map Path.ofString = paths := map_ofString_shown htext
      simp only [words, ofWords?, List.cons_append, List.nil_append, hpaths]

theorem words_ne_nil (command : Command) : command.words ≠ [] := by
  cases command with
  | remove path recursive => cases recursive <;> exact List.cons_ne_nil _ _
  | copy | mkdir | delete | commit | add => exact List.cons_ne_nil _ _

end Command

/-! ## Reading a script -/

def readScript (text : Bytes) : Option (List Command) := do
  let characters ← Utf8.decode? text
  let lines ← Shell.read characters
  lines.mapM Command.ofWords?

theorem script_eq_ofChars (commands : List Command) :
    script commands =
      Bytes.ofChars ((commands.map Command.words).flatMap fun words =>
        (Shell.line words).toList ++ ['\n']) := by
  have hline : ∀ command : Command, command.scriptLine =
      Bytes.ofChars ((Shell.line command.words).toList ++ ['\n']) := by
    intro command
    rw [Bytes.ofChars_append]
    rfl
  induction commands with
  | nil => rfl
  | cons command commands ih =>
      rw [List.map_cons, List.flatMap_cons, Bytes.ofChars_append, ← ih, ← hline]
      rfl

/-- **Reading the script of commands gives the commands.** -/
theorem readScript_script {commands : List Command} (htext : ∀ command ∈ commands, command.IsText) :
    readScript (script commands) = some commands := by
  have hlines : ∀ words ∈ commands.map Command.words, words ≠ [] := by
    rw [List.forall_mem_map]
    exact fun command _ => command.words_ne_nil
  have hwords : (commands.map Command.words).mapM Command.ofWords? = some commands := by
    induction commands with
    | nil => rfl
    | cons command commands ih =>
        obtain ⟨hfirst, hrest⟩ := List.forall_mem_cons.mp htext
        simp [Command.ofWords?_words hfirst, ih hrest (fun words h => hlines words (.tail _ h))]
  rw [readScript, script_eq_ofChars, Utf8.decode?_ofChars, Option.bind_eq_bind, Option.bind_some,
    Shell.read_lines hlines]
  exact hwords

/-! ## Writing a script -/

namespace Output

variable {room : Room} {text : Bytes} {out written : Output}

/-- A write that says nothing has written all of the text. -/
theorem received_of_write (h : out.write room text = (.ok (), written)) :
    written.received = out.received ++ text := by
  have hall : ∀ fits : Bytes, fits <+: text → fits.length = text.length →
      ({ out with parts := fits :: out.parts, size := out.size + fits.length } : Output).received =
        out.received ++ text := by
    intro fits hpart hlength
    rw [hpart.eq_of_length hlength]
    simp [received]
  cases hroom : room.bytes with
  | none =>  -- there is room for everything
      simp only [write, hroom, if_true] at h
      obtain rfl := (Prod.mk.inj h).2
      exact hall text List.prefix_rfl rfl
  | some most =>
      simp only [write, hroom] at h
      split at h
      · -- all of the text fits
        next hlength =>
          obtain rfl := (Prod.mk.inj h).2
          exact hall _ (List.take_prefix _ _) hlength
      · -- the text was torn, so the write failed
        exact nomatch (Prod.mk.inj h).1

theorem received_flush (room : Room) (out : Output) :
    (out.flush room).2.received = out.received := by
  unfold flush
  split
  · split <;> rfl
  · rfl

end Output

namespace Sink

/-- Hands the commands over one after another, each whatever became of the ones before it. -/
def takeAll {τ : Type} (sink : Sink τ) : List Command → τ → List (Except EmitError Unit) × τ
  | [], state => ([], state)
  | command :: rest, state =>
      let first := sink.accept command state
      let more := takeAll sink rest first.2
      (first.1 :: more.1, more.2)

theorem takeAll_cons {τ : Type} (sink : Sink τ) (command : Command) (rest : List Command)
    (state : τ) :
    sink.takeAll (command :: rest) state =
      ((sink.accept command state).1 :: (sink.takeAll rest (sink.accept command state).2).1,
        (sink.takeAll rest (sink.accept command state).2).2) := rfl

/-- The sink takes all the commands, and `text` is what its output has received then. -/
def Writes (room : Room) (commands : List Command) (text : Bytes) : Prop :=
  (∀ answer ∈ ((script room).takeAll commands {}).1, answer = .ok ()) ∧
    ((script room).takeAll commands {}).2.received = text

theorem accept_unlimited (command : Command) (out : Output) :
    ((script {}).accept command out).1 = .ok () := by
  simp [script, Output.write, Output.flush]

theorem received_accept {room : Room} {command : Command} {out : Output}
    (hok : ((script room).accept command out).1 = .ok ()) :
    ((script room).accept command out).2.received = out.received ++ command.scriptLine := by
  unfold script at hok ⊢
  dsimp only at hok ⊢
  split at hok
  · next written hwrite =>
      exact (Output.received_flush room written).trans (Output.received_of_write hwrite)
  · exact nomatch hok

theorem received_takeAll {room : Room} {commands : List Command} {out : Output}
    (hok : ∀ answer ∈ ((script room).takeAll commands out).1, answer = .ok ()) :
    ((script room).takeAll commands out).2.received = out.received ++ TreePlan.script commands := by
  induction commands generalizing out with
  | nil => exact (List.append_nil _).symm
  | cons command commands ih =>
      rw [takeAll_cons] at hok ⊢
      obtain ⟨hfirst, hrest⟩ := List.forall_mem_cons.mp hok
      rw [ih hrest, received_accept hfirst, List.append_assoc]
      rfl

theorem takeAll_unlimited (commands : List Command) (out : Output) :
    ∀ answer ∈ ((script {}).takeAll commands out).1, answer = .ok () := by
  induction commands generalizing out with
  | nil => exact List.forall_mem_nil _
  | cons command commands ih =>
      rw [takeAll_cons]
      exact List.forall_mem_cons.mpr ⟨accept_unlimited command out, ih _⟩

/-- **A script determines its commands.** An output without limit takes the script of any commands;
whatever output takes all of them has received the same text, which is read back as the commands,
and which it receives for no others. -/
theorem script_determines_commands {commands : List Command}
    (htext : ∀ command ∈ commands, command.IsText) :
    ∃ text, Writes {} commands text ∧ readScript text = some commands ∧
      (∀ room other, Writes room commands other → other = text) ∧
      ∀ others, (∀ command ∈ others, command.IsText) →
        ∀ room, Writes room others text → others = commands := by
  have hwritten : ∀ {room cs text}, Writes room cs text → text = TreePlan.script cs := by
    rintro room cs text ⟨hok, rfl⟩
    exact received_takeAll hok
  have hread := readScript_script htext
  refine ⟨TreePlan.script commands, ⟨takeAll_unlimited _ _, ?_⟩, hread, ?_, ?_⟩
  · exact received_takeAll (takeAll_unlimited _ _)
  · exact fun room other h => hwritten h
  · intro others hothers room h
    have hsame := readScript_script hothers
    rw [← hwritten h, hread] at hsame
    exact (Option.some.inj hsame).symm

end Sink

/-- Lines of words that look like flags, that are empty, and that hold blanks, quotes, ends of
lines and characters of more than one byte. -/
def awkwardCommands : List Command :=
  [.remove (.ofString "-r") false,
    .remove (.ofString "") true,
    .copy (.ofString "it's \"one\"\nrm -r /") (.ofString "$HOME/~ # é"),
    .commit "-m\n" [.ofString "\t", .ofString "--depth=empty"],
    .delete []]

theorem awkward_script_determines_commands :
    (∀ command ∈ awkwardCommands, command.IsText) ∧
      ∃ text, Sink.Writes {} awkwardCommands text ∧ readScript text = some awkwardCommands := by
  have htext : ∀ command ∈ awkwardCommands, command.IsText := by
    simp [awkwardCommands, Command.IsText, Command.paths, Path.isText_ofString]
  obtain ⟨text, hwrites, hread, -⟩ := Sink.script_determines_commands htext
  exact ⟨htext, text, hwrites, hread⟩

end TreePlan

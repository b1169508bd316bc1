import TreePlan.Shell

/-!
# Reading command lines

`Shell.read` reads a text as a POSIX shell does that expands nothing and runs nothing: blanks
separate words, a newline ends a command, quotes group characters and disappear. The reader goes
from character to character (`Reader.step`), and gives up at a character that would make a shell
do more than that: an operator, a pattern, an expansion.

What `Shell.join` writes is read back word by word (`feed_join`), so a text of such lines is read
as the words that were written, one command for each line (`read_lines`).
-/

namespace TreePlan.Shell

/-! ## The reader -/

inductive Quoting where
  | plain
  /-- Behind a backslash outside of quotes. -/
  | escaped
  | single
  | double
  /-- Behind a backslash between double quotes. -/
  | doubleEscaped
  | comment
  deriving DecidableEq, Repr

/-- What has been read: the word begun, if one is, the words before it in the same command, and the
commands before that one. -/
structure Reader where
  quoting : Quoting := .plain
  word : Option (List Char) := none
  words : List String := []
  commands : List (List String) := []
  deriving DecidableEq, Repr

/-- Outside of quotes these start an operator, a pattern or an expansion. -/
def isActive (c : Char) : Bool := "|&;<>()$`*?[]{}~!".toList.contains c

namespace Reader

/-- Adds to the word, which begins here if none has begun. -/
def push (text : List Char) (r : Reader) : Reader :=
  { r with word := some (r.word.getD [] ++ text) }

def endWord (r : Reader) : Reader :=
  match r.word with
  | none => r
  | some word => { r with word := none, words := r.words ++ [String.ofList word] }

/-- A line without words is no command. -/
def endCommand (r : Reader) : Reader :=
  let ended := r.endWord
  if ended.words = [] then ended
  else { ended with words := [], commands := ended.commands ++ [ended.words] }

def step (r : Reader) (c : Char) : Option Reader :=
  match r.quoting with
  | .plain =>
      if c = '\n' then some r.endCommand
      else if c = ' ' ∨ c = '\t' then some r.endWord
      else if c = '\'' then some { r.push [] with quoting := .single }
      else if c = '"' then some { r.push [] with quoting := .double }
      else if c = '\\' then some { r with quoting := .escaped }
      else if c = '#' ∧ r.word = none then some { r with quoting := .comment }
      else if isActive c then none
      else some (r.push [c])
  | .escaped =>
      if c = '\n' then some { r with quoting := .plain }
      else some { r.push [c] with quoting := .plain }
  | .single =>
      if c = '\'' then some { r with quoting := .plain } else some (r.push [c])
  | .double =>
      if c = '"' then some { r with quoting := .plain }
      else if c = '\\' then some { r with quoting := .doubleEscaped }
      else if c = '$' ∨ c = '`' then none
      else some (r.push [c])
  | .doubleEscaped =>
      if c = '\n' then some { r with quoting := .double }
      else if c = '$' ∨ c = '`' ∨ c = '"' ∨ c = '\\' then
        some { r.push [c] with quoting := .double }
      else some { r.push ['\\', c] with quoting := .double }
  | .comment =>
      if c = '\n' then some { r.endCommand with quoting := .plain } else some r

def feed (r : Reader) (text : List Char) : Option Reader := text.foldlM step r

/-- The commands at the end of a text, which must not end inside of quotes. -/
def finish (r : Reader) : Option (List (List String)) :=
  if r.quoting = .plain ∨ r.quoting = .comment then some r.endCommand.commands else none

end Reader

def read (text : List Char) : Option (List (List String)) :=
  (({} : Reader).feed text).bind Reader.finish

/-! ## Reading what was written -/

namespace Reader

@[simp] theorem feed_nil (r : Reader) : r.feed [] = some r := rfl

@[simp] theorem feed_cons (r : Reader) (c : Char) (text : List Char) :
    r.feed (c :: text) = (r.step c).bind fun after => after.feed text := rfl

theorem feed_append (r : Reader) (front back : List Char) :
    r.feed (front ++ back) = (r.feed front).bind fun after => after.feed back := by
  rw [feed, List.foldlM_append]
  rfl

variable {r : Reader} {text : List Char}

/-- A quote in a word leaves the quotation, stands between double quotes, and comes back. -/
theorem feed_leave (word : List Char) :
    { r with quoting := .single, word := some word }.feed "'\"'\"'".toList =
      some { r with quoting := .single, word := some (word ++ ['\'']) } := by
  simp [step, push]

/-- Between single quotes every other character stands for itself. -/
theorem step_single {c : Char} (hne : c ≠ '\'') (word : List Char) :
    { r with quoting := .single, word := some word }.step c =
      some { r with quoting := .single, word := some (word ++ [c]) } := by
  simp [step, push, hne]

/-- What is escaped is read back, up to the quote at its end. -/
theorem feed_escape (word : List Char) :
    { r with quoting := .single, word := some word }.feed (escape text ++ ['\'']) =
      some { r with quoting := .plain, word := some (word ++ text) } := by
  induction text generalizing word with
  | nil => simp [escape, step]
  | cons c text ih =>
      rw [escape]
      split
      · -- a quote leaves the quotation and comes back to it
        next hquote =>
          subst hquote
          rw [List.append_assoc, feed_append, feed_leave, Option.bind_some, ih]
          simp
      · -- any other character stays in it
        next hne =>
          rw [List.cons_append, feed_cons, step_single hne, Option.bind_some, ih]
          simp

theorem ne_of_isSafe {c d : Char} (hc : isSafe c = true) (hd : isSafe d = false) : c ≠ d := by
  rintro rfl
  exact Bool.noConfusion (hc.symm.trans hd)

theorem isActive_of_isSafe {c : Char} (hc : isSafe c = true) : isActive c = false := by
  have hactive : "|&;<>()$`*?[]{}~!".toList.all (fun d => !isSafe d) = true := by decide
  rw [Bool.eq_false_iff]
  intro h
  have hnot := List.all_eq_true.mp hactive c (List.contains_iff_mem.mp h)
  exact ne_of_isSafe hc ((Bool.not_eq_true' _).mp hnot) rfl

/-- Whatever the reader gives a meaning to is not safe. -/
theorem step_of_isSafe {c : Char} (hplain : r.quoting = .plain) (hc : isSafe c = true) :
    r.step c = some (r.push [c]) := by
  have hother : ∀ d : Char, isSafe d = false → c ≠ d := fun d => ne_of_isSafe hc
  simp [step, hplain, isActive_of_isSafe hc, hother '\n' (by decide), hother ' ' (by decide),
    hother '\t' (by decide), hother '\'' (by decide), hother '"' (by decide),
    hother '\\' (by decide), hother '#' (by decide)]

theorem feed_safe (hplain : r.quoting = .plain) (word : List Char)
    (hsafe : text.all isSafe = true) :
    { r with word := some word }.feed text = some { r with word := some (word ++ text) } := by
  induction text generalizing word with
  | nil => simp
  | cons c text ih =>
      rw [List.all_cons, Bool.and_eq_true] at hsafe
      have hstep : { r with word := some word }.step c =
          some { r with word := some (word ++ [c]) } := step_of_isSafe hplain hsafe.1
      rw [feed_cons, hstep, Option.bind_some, ih _ hsafe.2]
      simp

/-- A quoted word is read as the word. -/
theorem feed_quote (hplain : r.quoting = .plain) (hword : r.word = none) (word : List Char) :
    r.feed (quote word) = some { r with word := some word } := by
  obtain ⟨_, _, words, commands⟩ := r
  obtain rfl : _ = Quoting.plain := hplain
  obtain rfl : _ = none := hword
  unfold quote
  split
  · -- the empty word
    next hnil =>
      subst hnil
      simp [step, push]
  split
  · -- a word that needs no quotes
    next hne hsafe =>
      cases word with
      | nil => exact absurd rfl hne
      | cons c word =>
          rw [List.all_cons, Bool.and_eq_true] at hsafe
          rw [feed_cons, step_of_isSafe rfl hsafe.1]
          exact feed_safe (r := { words, commands }) rfl [c] hsafe.2
  · -- any other word
    have hopen : ({ words, commands } : Reader).step '\'' =
        some { words, commands, quoting := .single, word := some [] } := by
      simp [step, push]
    rw [feed_cons, hopen]
    exact feed_escape (r := { words, commands }) []

theorem step_blank (hplain : r.quoting = .plain) (hword : r.word = none) (word : List Char) :
    { r with word := some word }.step ' ' =
      some { r with words := r.words ++ [String.ofList word] } := by
  simp [step, hplain, hword, endWord]

/-- At the end of a line of quoted words the reader stands behind its last word. -/
theorem feed_words (hplain : r.quoting = .plain) (hword : r.word = none) {line : List (List Char)}
    (hline : line ≠ []) :
    r.feed (join line) =
      some { r with
        word := some (line.getLast hline)
        words := r.words ++ (line.map String.ofList).dropLast } := by
  induction line using join.induct generalizing r with
  | case1 => exact absurd rfl hline
  | case2 word =>
      rw [join, feed_quote hplain hword]
      simp
  | case3 word next rest ih =>
      -- The blank ends the first word, so the others are read from a fresh start.
      rw [join, feed_append, feed_quote hplain hword, Option.bind_some, feed_cons,
        step_blank hplain hword, Option.bind_some,
        ih (r := { r with words := r.words ++ [String.ofList word] }) hplain hword
          (List.cons_ne_nil _ _)]
      simp

theorem feed_newline (hplain : r.quoting = .plain) : r.feed ['\n'] = some r.endCommand := by
  simp [step, hplain]

/-- Behind the last word of a line, the end of the command adds the command of all its words. -/
theorem endCommand_words {line : List (List Char)} (hline : line ≠ []) :
    { r with
      word := some (line.getLast hline)
      words := r.words ++ (line.map String.ofList).dropLast }.endCommand =
      { r with
        word := none
        words := []
        commands := r.commands ++ [r.words ++ line.map String.ofList] } := by
  have hall : (line.map String.ofList).dropLast ++ [String.ofList (line.getLast hline)] =
      line.map String.ofList := by
    rw [← List.map_dropLast, ← List.map_singleton, ← List.map_append,
      List.dropLast_concat_getLast hline]
  simp [endCommand, endWord, hall, hline]

/-- A line of quoted words is read as a command of these words, behind those that the command
already has. -/
theorem feed_join (hplain : r.quoting = .plain) (hword : r.word = none) {line : List (List Char)}
    (hline : line ≠ []) :
    r.feed (join line ++ ['\n']) =
      some { r with
        words := []
        commands := r.commands ++ [r.words ++ line.map String.ofList] } := by
  rw [feed_append, feed_words hplain hword hline, Option.bind_some, feed_newline,
    endCommand_words hline, ← hword]
  exact hplain

theorem feed_lines (hplain : r.quoting = .plain) (hword : r.word = none) (hwords : r.words = [])
    {lines : List (List (List Char))} (hlines : ∀ line ∈ lines, line ≠ []) :
    r.feed (lines.flatMap fun line => join line ++ ['\n']) =
      some { r with commands := r.commands ++ lines.map fun line => line.map String.ofList } := by
  induction lines generalizing r with
  | nil => simp
  | cons line lines ih =>
      obtain ⟨hline, hlines⟩ := List.forall_mem_cons.mp hlines
      rw [List.flatMap_cons, feed_append, feed_join hplain hword hline, Option.bind_some]
      rw [ih (r := { r with words := [], commands := _ }) hplain hword rfl hlines]
      simp [hwords]

end Reader

/-- **A text of lines is read as the words that were written on them.** -/
theorem read_lines {lines : List (List String)} (hlines : ∀ line ∈ lines, line ≠ []) :
    read (lines.flatMap fun words => (line words).toList ++ ['\n']) = some lines := by
  have htext : (lines.flatMap fun words => (line words).toList ++ ['\n']) =
      (lines.map fun words => words.map String.toList).flatMap fun words =>
        join words ++ ['\n'] := by
    simp [List.flatMap_map, line]
  have hmapped : ∀ words ∈ lines.map fun words => words.map String.toList, words ≠ [] := by
    simpa using hlines
  rw [read, htext, Reader.feed_lines rfl rfl rfl hmapped, Option.bind_some]
  simp [Reader.finish, Reader.endCommand, Reader.endWord, Function.comp_def]

end TreePlan.Shell

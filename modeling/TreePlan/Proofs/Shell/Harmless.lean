import TreePlan.Proofs.Shell.Reader

/-!
# Command lines do nothing but name their words

That a line is read back as its words says where the reader ends. What it says on the way is said
here: `Reader.visits` lists the characters of a text, each with the reader as it stands in front of
it, and a character is `Tame` where it can only be a part of a word, a mark of quotation around
one, or the blank behind one. All of a line is tame (`isTame_join`), so a shell finds no place in it
where it would begin a comment, end the command or expand anything (`Reader.Tame.not_acts`).

`line_reads_back` puts this together with the words. Two lists of words never have the same line,
because the line is read as only one of them.
-/

namespace TreePlan.Shell

namespace Reader

/-! ## The course of reading -/

/-- The characters of a text as far as the reader comes, each with the reader in front of it. -/
def visits (r : Reader) : List Char → List (Reader × Char)
  | [] => []
  | c :: text =>
      (r, c) :: match r.step c with
        | none => []
        | some after => after.visits text

/-- Where a shell that is not told otherwise does more than to go on with a word: it ends the
command, begins a comment, takes the next character for another, or meets an operator, a pattern or
an expansion. -/
def Acts (r : Reader) (c : Char) : Prop :=
  match r.quoting with
  | .plain => c = '\n' ∨ c = '\\' ∨ (c = '#' ∧ r.word = none) ∨ isActive c = true
  | .double => c = '\\' ∨ c = '$' ∨ c = '`'
  | .single => False
  | .escaped | .doubleEscaped | .comment => True

/-- A character that means itself where the reader stands, or a mark of quotation, or the blank
behind a word. -/
inductive Tame (r : Reader) : Char → Prop
  | safe {c : Char} (hplain : r.quoting = .plain) (hsafe : isSafe c = true) : Tame r c
  | blank (hplain : r.quoting = .plain) (hword : r.word ≠ none) : Tame r ' '
  | opens {c : Char} (hplain : r.quoting = .plain) (hmark : c = '\'' ∨ c = '"') : Tame r c
  | single {c : Char} (hsingle : r.quoting = .single) : Tame r c
  | double {c : Char} (hdouble : r.quoting = .double) (hmark : c = '\'' ∨ c = '"') : Tame r c

def IsTame (r : Reader) (text : List Char) : Prop :=
  ∀ place ∈ r.visits text, place.1.Tame place.2

variable {r after : Reader} {c : Char} {text front back : List Char}

/-- A text that can be read is read to its end. -/
theorem map_snd_visits (hfeed : r.feed text = some after) :
    (r.visits text).map Prod.snd = text := by
  induction text generalizing r with
  | nil => rfl
  | cons c text ih =>
      rw [feed_cons] at hfeed
      obtain ⟨next, hstep, hfeed⟩ := Option.bind_eq_some_iff.mp hfeed
      rw [visits, hstep, List.map_cons, ih hfeed]

/-- Nothing a shell acts on is tame. -/
theorem Tame.not_acts (h : r.Tame c) : ¬ r.Acts c := by
  cases h with
  | safe hplain hsafe =>
      have hother : ∀ d : Char, isSafe d = false → c ≠ d := fun d => ne_of_isSafe hsafe
      simp [Acts, hplain, isActive_of_isSafe hsafe, hother '\n' (by decide),
        hother '\\' (by decide), hother '#' (by decide)]
  | blank hplain hword =>
      have hactive : isActive ' ' = false := by decide
      simp [Acts, hplain, hactive]
  | opens hplain hmark =>
      rcases hmark with rfl | rfl
      · have hactive : isActive '\'' = false := by decide
        simp [Acts, hplain, hactive]
      · have hactive : isActive '"' = false := by decide
        simp [Acts, hplain, hactive]
  | single hsingle => simp [Acts, hsingle]
  | double hdouble hmark => rcases hmark with rfl | rfl <;> simp [Acts, hdouble]

theorem isTame_nil (r : Reader) : r.IsTame [] := List.forall_mem_nil _

theorem isTame_cons (hc : r.Tame c) (hstep : r.step c = some after) (htext : after.IsTame text) :
    r.IsTame (c :: text) := by
  rw [IsTame, visits, hstep]
  exact List.forall_mem_cons.mpr ⟨hc, htext⟩

/-- The text behind one that can be read is read from where that one ends. -/
theorem isTame_append (hfront : r.IsTame front) (hfeed : r.feed front = some after)
    (hback : after.IsTame back) : r.IsTame (front ++ back) := by
  induction front generalizing r with
  | nil =>
      obtain rfl : r = after := Option.some.inj hfeed
      exact hback
  | cons c front ih =>
      rw [feed_cons] at hfeed
      obtain ⟨next, hstep, hfeed⟩ := Option.bind_eq_some_iff.mp hfeed
      rw [IsTame, visits, hstep] at hfront
      obtain ⟨hc, hfront⟩ := List.forall_mem_cons.mp hfront
      exact isTame_cons hc hstep (ih hfront hfeed)

/-! ## Lines -/

theorem isTame_leave (word : List Char) :
    { r with quoting := .single, word := some word }.IsTame "'\"'\"'".toList := by
  have hmarks : "'\"'\"'".toList = ['\'', '"', '\'', '"', '\''] := by simp
  rw [hmarks]
  -- Out of the quotation, a quote between double quotes, and into it again.
  apply isTame_cons (.single rfl)
  · show step _ _ = some { r with quoting := .plain, word := some word }
    simp [step]
  apply isTame_cons (.opens rfl (.inr rfl))
  · show step _ _ = some { r with quoting := .double, word := some word }
    simp [step, push]
  apply isTame_cons (.double rfl (.inl rfl))
  · show step _ _ = some { r with quoting := .double, word := some (word ++ ['\'']) }
    simp [step, push]
  apply isTame_cons (.double rfl (.inr rfl))
  · show step _ _ = some { r with quoting := .plain, word := some (word ++ ['\'']) }
    simp [step]
  apply isTame_cons (.opens rfl (.inl rfl))
  · show step _ _ = some { r with quoting := .single, word := some (word ++ ['\'']) }
    simp [step, push]
  exact isTame_nil _

theorem isTame_escape (word : List Char) :
    { r with quoting := .single, word := some word }.IsTame (escape text ++ ['\'']) := by
  have hclose : ∀ word, { r with quoting := .single, word := some word }.step '\'' =
      some { r with quoting := .plain, word := some word } := by
    simp [step]
  induction text generalizing word with
  | nil => exact isTame_cons (.single rfl) (hclose word) (isTame_nil _)
  | cons c text ih =>
      rw [escape]
      split
      · -- a quote
        rw [List.append_assoc]
        exact isTame_append (isTame_leave word) (feed_leave word) (ih _)
      · -- any other character
        next hne => exact isTame_cons (.single rfl) (step_single hne word) (ih _)

theorem isTame_safe (hplain : r.quoting = .plain) (hsafe : text.all isSafe = true) :
    r.IsTame text := by
  induction text generalizing r with
  | nil => exact isTame_nil r
  | cons c text ih =>
      rw [List.all_cons, Bool.and_eq_true] at hsafe
      exact isTame_cons (.safe hplain hsafe.1) (step_of_isSafe hplain hsafe.1)
        (ih hplain hsafe.2)

theorem isTame_quote (hplain : r.quoting = .plain) (word : List Char) :
    r.IsTame (quote word) := by
  have hopen : r.step '\'' = some { r.push [] with quoting := .single } := by
    simp [step, hplain]
  have hinside : ∀ text, { r.push [] with quoting := .single }.IsTame (escape text ++ ['\'']) :=
    fun _ => isTame_escape (r := r) _
  unfold quote
  split
  · -- the empty word
    exact isTame_cons (.opens hplain (.inl rfl)) hopen (hinside [])
  split
  · -- a word that needs no quotes
    next hsafe => exact isTame_safe hplain hsafe
  · -- any other word
    exact isTame_cons (.opens hplain (.inl rfl)) hopen (hinside word)

/-- A line of quoted words is tame from its first character to its last. -/
theorem isTame_join (hplain : r.quoting = .plain) (hword : r.word = none)
    (line : List (List Char)) : r.IsTame (join line) := by
  induction line using join.induct generalizing r with
  | case1 => exact isTame_nil r
  | case2 word => exact isTame_quote hplain word
  | case3 word next rest ih =>
      rw [join]
      apply isTame_append (isTame_quote hplain word) (feed_quote hplain hword word)
      apply isTame_cons (r := { r with word := some word })
        (.blank hplain (Option.some_ne_none word)) (step_blank hplain hword word)
      exact ih (r := { r with words := r.words ++ [String.ofList word] }) hplain hword

end Reader

/-! ## Lines and their words -/

theorem read_line (words : List String) :
    read (line words).toList = some (if words = [] then [] else [words]) := by
  cases words with
  | nil => rfl
  | cons first rest =>
      have hline : (first :: rest).map String.toList ≠ [] := List.cons_ne_nil _ _
      rw [read, line, String.toList_ofList, Reader.feed_words rfl rfl hline, Option.bind_some,
        Reader.finish, Reader.endCommand_words hline]
      simp

theorem map_snd_visits_line (words : List String) :
    (Reader.visits {} (line words).toList).map Prod.snd = (line words).toList := by
  have hread := read_line words
  rw [read] at hread
  obtain ⟨after, hfeed, -⟩ := Option.bind_eq_some_iff.mp hread
  exact Reader.map_snd_visits hfeed

theorem line_injective : Function.Injective line := by
  intro words others hline
  have hread : (if words = [] then [] else [words]) = if others = [] then [] else [others] := by
    apply Option.some.inj
    rw [← read_line words, ← read_line others, hline]
  cases words with
  | nil =>
      cases others with
      | nil => rfl
      | cons other rest => simp at hread
  | cons word rest =>
      cases others with
      | nil => simp at hread
      | cons other more => simpa using hread

/-- A quoted word is the line of this word alone. -/
theorem quoteString_injective : Function.Injective quoteString := by
  intro word other hquoted
  have hline : line [word] = line [other] := hquoted
  exact List.head_eq_of_cons_eq (line_injective hline)

/-- **A line is read back as its words, and nothing in it is for the shell.** Whatever the words
hold, the reader comes to each character of their line; one that is not quoted is safe or the blank
behind a word, and there is none on which a shell acts. No two words are quoted alike, and no two
lists of words have the same line. -/
theorem line_reads_back :
    (∀ words : List String,
      read (line words).toList = some (if words = [] then [] else [words]) ∧
        (Reader.visits {} (line words).toList).map Prod.snd = (line words).toList ∧
        ∀ place ∈ Reader.visits {} (line words).toList,
          place.1.Tame place.2 ∧ ¬ place.1.Acts place.2) ∧
      Function.Injective quoteString ∧ Function.Injective line := by
  refine ⟨fun words => ⟨read_line words, map_snd_visits_line words, fun place hplace => ?_⟩,
    quoteString_injective, line_injective⟩
  have htame : place.1.Tame place.2 := by
    rw [line, String.toList_ofList] at hplace
    exact Reader.isTame_join rfl rfl _ place hplace
  exact ⟨htame, htame.not_acts⟩

example : (line ["rm", "", "it's"]).toList = "rm '' 'it'\"'\"'s'".toList := by decide

end TreePlan.Shell

import TreePlan.Proofs.Script

/-!
# Scripts on outputs with limited room

An output takes so many bytes in all. The line that does not fit is torn where the room ends, and
from then on nothing more is received. So the output always holds the beginning of the whole script,
as much of it as there is room for (`Output.Holds`), and what becomes of a line depends on nothing
but where it ends (`WhenFull.outcome`).

A sink that keeps to this with every single command keeps to it with all of them
(`Sink.Fills.takeAll`). There are two such sinks: `Sink.script`, which hands a line over in one
piece, and `Sink.stepwise`, which spells out the calls that this stands for. A call takes what fits,
and is made again for the rest; the end of the line is written by itself.
-/

namespace TreePlan

/-! ## Writing in calls -/

namespace Output

/-- One call to write. It takes what fits, and tells how much that was. Where nothing fits of a
text, the call fails, or tells that it took nothing. -/
def put (room : Room) (text : Bytes) (out : Output) : Except EmitError Nat × Output :=
  let fits := match room.bytes with
    | none => text
    | some most => text.take (most - out.size)
  if fits = [] ∧ text ≠ [] then
    (if room.whenFull = .takeNothing then .ok 0 else .error .writerFull, out)
  else (.ok fits.length, { out with parts := fits :: out.parts, size := out.size + fits.length })

/-- Calls to write again and again, until all of the text is taken or a call takes nothing. -/
def putAll (room : Room) (text : Bytes) (out : Output) : Except EmitError Unit × Output :=
  if text = [] then (.ok (), out)
  else
    match out.put room text with
    | (.error failure, after) => (.error failure, after)
    | (.ok taken, after) =>
      if taken = 0 then (.error .nothingWritten, after)
      else putAll room (text.drop taken) after
  termination_by text.length
  decreasing_by
    have := List.length_pos_iff.mpr ‹text ≠ []›
    rw [List.length_drop]
    omega

end Output

/-- Writes the line of each command, then the end of the line, and flushes after it. -/
def Sink.stepwise (room : Room) : Sink Output where
  accept command out :=
    match out.putAll room (Bytes.ofString command.line) with
    | (.error failure, torn) => (.error failure, torn)
    | (.ok (), unended) =>
      match unended.putAll room [0x0A] with
      | (.error failure, torn) => (.error failure, torn)
      | (.ok (), written) => written.flush room

/-! ## What an output holds -/

def WhenFull.failure : WhenFull → EmitError
  | .takeNothing => .nothingWritten
  | .refuse | .failFlush => .writerFull

/-- What becomes of a line that ends at `ends`, where there is room for `most` bytes. -/
def WhenFull.outcome (whenFull : WhenFull) (most ends : Nat) : Except EmitError Unit :=
  if most < ends then .error whenFull.failure
  else if whenFull = .failFlush ∧ ends = most then .error .flushFailed
  else .ok ()

theorem WhenFull.outcome_eq_ok_iff {whenFull : WhenFull} {most ends : Nat} :
    whenFull.outcome most ends = .ok () ↔
      if whenFull = .failFlush then ends < most else ends ≤ most := by
  unfold outcome
  split
  · -- the line is torn
    next hlong =>
    simp only [reduceCtorEq, false_iff]
    split <;> omega
  · -- the line fits
    next hfits =>
    split
    · next hflush =>
      rw [if_pos hflush.1]
      simp only [reduceCtorEq, false_iff]
      omega
    · next hflush =>
      simp only [true_iff]
      split
      · next hmode =>
        have : ends ≠ most := fun heq => hflush ⟨hmode, heq⟩
        omega
      · omega

namespace Output

/-- An output with room for `most` bytes was handed `whole`, and was flushed so many times. -/
structure Holds (most : Nat) (whole : Bytes) (flushes : Nat) (out : Output) : Prop where
  received : out.received = whole.take most
  size : out.size = min most whole.length
  flushes : out.flushes = flushes

variable {most flushes : Nat} {whole text : Bytes} {out : Output}

theorem holds_empty (most : Nat) : Holds most [] 0 {} := ⟨by simp [received], by simp, rfl⟩

/-- A full output holds the same whatever it is handed. -/
theorem Holds.append_of_full (h : Holds most whole flushes out) (hfull : most ≤ whole.length)
    (text : Bytes) : Holds most (whole ++ text) flushes out where
  received := by rw [h.received, List.take_append_of_le_length hfull]
  size := by
    rw [h.size, List.length_append]
    omega
  flushes := h.flushes

/-- What fits is received. -/
theorem Holds.receive (h : Holds most whole flushes out) {fits : Bytes}
    (hfits : fits.length ≤ most - out.size) :
    Holds most (whole ++ fits) flushes
      { out with parts := fits :: out.parts, size := out.size + fits.length } := by
  have hsize := h.size
  have hroom : fits.length ≤ most - whole.length := by omega
  refine ⟨?_, ?_, h.flushes⟩
  · have hreceived := h.received
    unfold Output.received at hreceived ⊢
    rw [List.take_append, List.take_of_length_le hroom, ← hreceived, List.reverse_cons,
      List.flatten_append, List.flatten_singleton]
  · show out.size + fits.length = _
    rw [List.length_append]
    omega

/-- What an output answers that was to take a text that ends at `ends`. -/
def answer (whenFull : WhenFull) (most : Nat) (text : Bytes) (ends : Nat) : Except EmitError Unit :=
  if text ≠ [] ∧ most < ends then .error whenFull.failure else .ok ()

/-- Writing a text leaves as much of it as there is room for. -/
theorem Holds.write (h : Holds most whole flushes out) (whenFull : WhenFull) (text : Bytes) :
    (out.write ⟨some most, whenFull⟩ text).1 =
        answer whenFull most text (whole ++ text).length ∧
      Holds most (whole ++ text) flushes (out.write ⟨some most, whenFull⟩ text).2 := by
  have hsize := h.size
  have hlength := List.length_take (i := most - out.size) (l := text)
  have hshort : (text.take (most - out.size)).length ≤ most - out.size := by omega
  have hfits := h.receive hshort
  simp only [Output.write, answer, List.length_append]
  by_cases hall : (text.take (most - out.size)).length = text.length
  · -- all of the text fits
    rw [if_pos hall]
    rw [List.take_of_length_le (by omega)] at hfits ⊢
    refine ⟨(if_neg ?_).symm, hfits⟩
    rintro ⟨hnil, hlong⟩
    have := List.length_pos_iff.mpr hnil
    omega
  · -- only a part of it does
    rw [if_neg hall]
    refine ⟨?_, ?_⟩
    · have hlong : text ≠ [] ∧ most < whole.length + text.length := by
        rw [← List.length_pos_iff]
        omega
      rw [if_pos hlong]
      cases whenFull <;> rfl
    · have hfull := hfits.append_of_full (by rw [List.length_append]; omega)
        (text.drop (most - out.size))
      rwa [List.append_assoc, List.take_append_drop] at hfull

/-- A call to write with no room left takes nothing. -/
theorem Holds.put_of_full (h : Holds most whole flushes out) (whenFull : WhenFull)
    (hfull : most ≤ whole.length) (hnil : text ≠ []) :
    out.put ⟨some most, whenFull⟩ text =
      (if whenFull = .takeNothing then .ok 0 else .error .writerFull, out) := by
  have hsize := h.size
  have hnone : text.take (most - out.size) = [] := by
    rw [show most - out.size = 0 by omega, List.take_zero]
  simp only [put]
  rw [if_pos ⟨hnone, hnil⟩]

/-- A call to write with room left takes a part of the text, all of it or up to the limit. -/
theorem Holds.put_of_room (h : Holds most whole flushes out) (whenFull : WhenFull)
    (hroom : whole.length < most) (hnil : text ≠ []) :
    ∃ fits rest after, fits ++ rest = text ∧ fits ≠ [] ∧
      out.put ⟨some most, whenFull⟩ text = (.ok fits.length, after) ∧
      Holds most (whole ++ fits) flushes after ∧
      (rest ≠ [] ↔ most < (whole ++ (fits ++ rest)).length) := by
  have hsize := h.size
  have hpos := List.length_pos_iff.mpr hnil
  have hlength := List.length_take (i := most - out.size) (l := text)
  have hsome : text.take (most - out.size) ≠ [] := List.length_pos_iff.mp (by omega)
  refine ⟨_, _, _, List.take_append_drop (most - out.size) text, hsome, ?_,
    h.receive (by omega), ?_⟩
  · simp only [put]
    rw [if_neg fun hnone => hsome hnone.1]
  · rw [List.take_append_drop, List.length_append, ← List.length_pos_iff, List.length_drop]
    omega

/-- Calls to write come to the same. -/
theorem Holds.putAll (h : Holds most whole flushes out) (whenFull : WhenFull) (text : Bytes) :
    (out.putAll ⟨some most, whenFull⟩ text).1 =
        answer whenFull most text (whole ++ text).length ∧
      Holds most (whole ++ text) flushes (out.putAll ⟨some most, whenFull⟩ text).2 := by
  induction hlength : text.length using Nat.strongRecOn generalizing text whole out with
  | _ length ih =>
      subst hlength
      rw [Output.putAll]
      by_cases hnil : text = []
      · subst hnil
        simpa [answer] using h
      rw [if_neg hnil]
      have hpos := List.length_pos_iff.mpr hnil
      rcases Nat.lt_or_ge whole.length most with hroom | hfull
      · -- something fits, and the rest is put next
        obtain ⟨fits, rest, after, rfl, hsome, hput, hafter, hrest⟩ :=
          h.put_of_room whenFull hroom hnil
        have htaken := List.length_pos_iff.mpr hsome
        have hshort : rest.length < (fits ++ rest).length := by
          rw [List.length_append]
          omega
        obtain ⟨hanswer, hholds⟩ := ih rest.length hshort hafter rest rfl
        rw [hput]
        dsimp only
        rw [if_neg (Nat.ne_of_gt htaken), List.drop_left, ← List.append_assoc, hanswer]
        refine ⟨?_, hholds⟩
        have hboth : fits ++ rest ≠ [] := hnil
        simp only [answer, List.append_assoc, ← hrest, hboth, ne_eq, not_false_eq_true, true_and,
          and_self]
      · -- nothing fits any more
        have hlong : most < (whole ++ text).length := by
          rw [List.length_append]
          omega
        have hanswer : answer whenFull most text (whole ++ text).length = .error whenFull.failure :=
          if_pos ⟨hnil, hlong⟩
        have hsame := h.append_of_full hfull text
        rw [h.put_of_full whenFull hfull hnil, hanswer]
        cases whenFull <;> exact ⟨rfl, hsame⟩

theorem Holds.flush (h : Holds most whole flushes out) (whenFull : WhenFull)
    (hends : whole.length ≤ most) :
    (out.flush ⟨some most, whenFull⟩).1 = whenFull.outcome most whole.length ∧
      Holds most whole (flushes + 1) (out.flush ⟨some most, whenFull⟩).2 := by
  have hafter : Holds most whole (flushes + 1) { out with flushes := out.flushes + 1 } :=
    ⟨h.received, h.size, congrArg (· + 1) h.flushes⟩
  have hsize := h.size
  have hfull : most ≤ out.size ↔ whole.length = most := by omega
  have hfails : (whenFull = .failFlush && most ≤ out.size) = true ↔
      whenFull = .failFlush ∧ whole.length = most := by
    rw [Bool.and_eq_true, decide_eq_true_iff, decide_eq_true_iff, hfull]
  simp only [Output.flush, WhenFull.outcome, if_neg (Nat.not_lt.mpr hends)]
  by_cases hnot : whenFull = .failFlush ∧ whole.length = most
  · rw [if_pos (hfails.mpr hnot), if_pos hnot]
    exact ⟨rfl, hafter⟩
  · rw [if_neg (mt hfails.mp hnot), if_neg hnot]
    exact ⟨rfl, hafter⟩

end Output

/-! ## Sinks -/

/-- Where the lines of the commands end, the first of which begins at `start`. -/
def lineEnds (start : Nat) : List Command → List Nat
  | [] => []
  | command :: rest =>
      (start + command.scriptLine.length) :: lineEnds (start + command.scriptLine.length) rest

theorem lineEnds_eq_map_range (start : Nat) (commands : List Command) :
    lineEnds start commands = (List.range commands.length).map fun index =>
      start + (script (commands.take (index + 1))).length := by
  induction commands generalizing start with
  | nil => rfl
  | cons command rest ih =>
      rw [lineEnds, ih, List.length_cons, List.range_succ_eq_map, List.map_cons, List.map_map]
      have hhead : (script ((command :: rest).take (0 + 1))).length = command.scriptLine.length := by
        simp [script]
      have htail : ∀ index, (script ((command :: rest).take (index + 1 + 1))).length =
          command.scriptLine.length + (script (rest.take (index + 1))).length := by
        simp [script]
      simp only [Function.comp_def, hhead, htail, Nat.succ_eq_add_one, Nat.add_assoc]

namespace Sink

variable {most flushes : Nat} {whole : Bytes} {out : Output} {whenFull : WhenFull}
  {sink : Sink Output}

/-- What a sink makes of an output that holds the beginning of a script and of one more command:
the output holds the beginning of the script with the line, and was flushed for it if it fits. -/
def Fills (most : Nat) (whenFull : WhenFull) (sink : Sink Output) : Prop :=
  ∀ whole flushes out command, Output.Holds most whole flushes out →
    (sink.accept command out).1 =
        whenFull.outcome most (whole ++ command.scriptLine).length ∧
      Output.Holds most (whole ++ command.scriptLine)
        (if (whole ++ command.scriptLine).length ≤ most then flushes + 1 else flushes)
        (sink.accept command out).2

theorem fills_script (most : Nat) (whenFull : WhenFull) :
    Fills most whenFull (script ⟨some most, whenFull⟩) := by
  intro whole flushes out command h
  obtain ⟨hanswer, hholds⟩ := h.write whenFull command.scriptLine
  have hline : command.scriptLine ≠ [] := List.append_ne_nil_of_right_ne_nil _ (List.cons_ne_nil _ _)
  simp only [script]
  by_cases hends : (whole ++ command.scriptLine).length ≤ most
  · -- the line fits, and is flushed
    rw [Output.answer, if_neg fun hnot => Nat.not_lt.mpr hends hnot.2] at hanswer
    rw [if_pos hends, show out.write _ _ = (.ok (), _) from Prod.ext hanswer rfl]
    exact hholds.flush whenFull hends
  · -- the line is torn
    have hlong := Nat.lt_of_not_le hends
    rw [Output.answer, if_pos ⟨hline, hlong⟩] at hanswer
    rw [if_neg hends, show out.write _ _ = (.error _, _) from Prod.ext hanswer rfl]
    exact ⟨(if_pos hlong).symm, hholds⟩

theorem fills_stepwise (most : Nat) (whenFull : WhenFull) :
    Fills most whenFull (stepwise ⟨some most, whenFull⟩) := by
  intro whole flushes out command h
  have hend : whole ++ command.scriptLine = whole ++ Bytes.ofString command.line ++ [0x0A] :=
    (List.append_assoc ..).symm
  obtain ⟨hfirst, hline⟩ := h.putAll whenFull (Bytes.ofString command.line)
  obtain ⟨hsecond, hended⟩ := hline.putAll whenFull [0x0A]
  simp only [stepwise, hend]
  by_cases hends : (whole ++ Bytes.ofString command.line ++ [0x0A]).length ≤ most
  · -- both pieces fit
    have hshort : (whole ++ Bytes.ofString command.line).length ≤ most := by
      rw [List.length_append] at hends
      omega
    rw [Output.answer, if_neg fun hnot => Nat.not_lt.mpr hshort hnot.2] at hfirst
    rw [Output.answer, if_neg fun hnot => Nat.not_lt.mpr hends hnot.2] at hsecond
    rw [if_pos hends, show out.putAll _ _ = (.ok (), _) from Prod.ext hfirst rfl]
    dsimp only
    rw [show Output.putAll _ [0x0A] _ = (.ok (), _) from Prod.ext hsecond rfl]
    exact hended.flush whenFull hends
  · -- the line is torn
    have hlong := Nat.lt_of_not_le hends
    rw [if_neg hends, WhenFull.outcome, if_pos hlong]
    rw [Output.answer] at hfirst
    split at hfirst
    · -- within its text
      next htorn =>
      rw [show out.putAll _ _ = (.error _, _) from Prod.ext hfirst rfl]
      exact ⟨rfl, hline.append_of_full (Nat.le_of_lt htorn.2) _⟩
    · -- at its end
      rw [show out.putAll _ _ = (.ok (), _) from Prod.ext hfirst rfl]
      dsimp only
      rw [Output.answer, if_pos ⟨List.cons_ne_nil _ _, hlong⟩] at hsecond
      rw [show Output.putAll _ [0x0A] _ = (.error _, _) from Prod.ext hsecond rfl]
      exact ⟨rfl, hended⟩

/-- A sink that keeps to this with every command keeps to it with all of them. -/
theorem Fills.takeAll (hfills : Fills most whenFull sink) (commands : List Command)
    (h : Output.Holds most whole flushes out) :
    (sink.takeAll commands out).1 =
        (lineEnds whole.length commands).map (whenFull.outcome most) ∧
      Output.Holds most (whole ++ TreePlan.script commands)
        (flushes + (lineEnds whole.length commands).countP (· ≤ most))
        (sink.takeAll commands out).2 := by
  induction commands generalizing whole flushes out with
  | nil => exact ⟨rfl, by rwa [show TreePlan.script [] = [] from rfl, List.append_nil]⟩
  | cons command rest ih =>
      obtain ⟨hfirst, hheld⟩ := hfills whole flushes out command h
      obtain ⟨hmore, hholds⟩ := ih hheld
      rw [takeAll_cons, lineEnds, ← List.length_append]
      refine ⟨?_, ?_⟩
      · rw [List.map_cons, hfirst, hmore]
      · have hscript : whole ++ TreePlan.script (command :: rest) =
            whole ++ command.scriptLine ++ TreePlan.script rest :=
          (List.append_assoc ..).symm
        rw [List.countP_cons, hscript]
        by_cases hends : (whole ++ command.scriptLine).length ≤ most
        · rw [if_pos hends, Nat.add_right_comm, Nat.add_assoc] at hholds
          rwa [if_pos (decide_eq_true hends)]
        · rw [if_neg hends] at hholds
          rwa [if_neg (mt of_decide_eq_true hends)]

/-! ## Scripts -/

/-- What a sink leaves of the script of commands that are handed over one after another, where
there is room for `most` bytes. -/
structure Torn (most : Nat) (whenFull : WhenFull) (sink : Sink Output) (commands : List Command) :
    Prop where
  /-- What is received is the beginning of the script. -/
  received : (sink.takeAll commands {}).2.received = (TreePlan.script commands).take most
  /-- Each command is answered for where its line ends. -/
  answers : (sink.takeAll commands {}).1 = (List.range commands.length).map fun index =>
    whenFull.outcome most (TreePlan.script (commands.take (index + 1))).length
  /-- The commands that are taken are those the lines of which fit, or leave room. -/
  taken : ∀ index < commands.length, (sink.takeAll commands {}).1[index]? = some (.ok ()) ↔
    if whenFull = .failFlush then (TreePlan.script (commands.take (index + 1))).length < most
    else (TreePlan.script (commands.take (index + 1))).length ≤ most
  /-- There is one flush for each line that fits. -/
  flushes : (sink.takeAll commands {}).2.flushes = (List.range commands.length).countP fun index =>
    (TreePlan.script (commands.take (index + 1))).length ≤ most
  /-- A line that fits is complete, as are the ones before it. -/
  complete : ∀ index < commands.length,
    (TreePlan.script (commands.take (index + 1))).length ≤ most →
      TreePlan.script (commands.take (index + 1)) <+: (sink.takeAll commands {}).2.received
  /-- Nothing is received any more after a failure. -/
  settled : ∀ before later, before ++ later = commands →
    (∃ answer ∈ (sink.takeAll before {}).1, answer ≠ .ok ()) →
      (sink.takeAll commands {}).2.received = (sink.takeAll before {}).2.received

theorem script_append (before later : List Command) :
    TreePlan.script (before ++ later) = TreePlan.script before ++ TreePlan.script later :=
  List.flatMap_append

theorem script_take_prefix_script (commands : List Command) (count : Nat) :
    TreePlan.script (commands.take count) <+: TreePlan.script commands := by
  refine ⟨TreePlan.script (commands.drop count), ?_⟩
  rw [← script_append, List.take_append_drop]

theorem Fills.torn (hfills : Fills most whenFull sink) (commands : List Command) :
    Torn most whenFull sink commands := by
  have hwhole : ∀ commands : List Command,
      (sink.takeAll commands {}).1 = (List.range commands.length).map (fun index =>
          whenFull.outcome most (TreePlan.script (commands.take (index + 1))).length) ∧
        Output.Holds most (TreePlan.script commands)
          ((List.range commands.length).countP fun index =>
            (TreePlan.script (commands.take (index + 1))).length ≤ most)
          (sink.takeAll commands {}).2 := by
    intro commands
    obtain ⟨hanswers, hholds⟩ := hfills.takeAll commands (Output.holds_empty most)
    rw [lineEnds_eq_map_range] at hanswers hholds
    rw [List.countP_map, List.length_nil] at hholds
    rw [List.map_map, List.length_nil] at hanswers
    simp only [Function.comp_def, Nat.zero_add, List.nil_append] at hanswers hholds
    exact ⟨hanswers, hholds⟩
  obtain ⟨hanswers, hholds⟩ := hwhole commands
  refine ⟨hholds.received, hanswers, ?_, hholds.flushes, ?_, ?_⟩
  · intro index hindex
    rw [hanswers, List.getElem?_map, List.getElem?_range hindex, Option.map_some,
      Option.some_inj, WhenFull.outcome_eq_ok_iff]
  · intro index hindex hends
    rw [hholds.received]
    exact List.prefix_take_iff.mpr ⟨script_take_prefix_script commands _, hends⟩
  · -- there is no room for a byte behind a torn line
    rintro before later rfl ⟨answer, hanswer, hfailed⟩
    obtain ⟨hbefore, hearlier⟩ := hwhole before
    rw [hbefore] at hanswer
    obtain ⟨index, -, rfl⟩ := List.mem_map.mp hanswer
    have hfull : most ≤ (TreePlan.script before).length := by
      have hends := (script_take_prefix_script before (index + 1)).length_le
      rw [Ne, WhenFull.outcome_eq_ok_iff] at hfailed
      split at hfailed <;> omega
    rw [hholds.received, hearlier.received, script_append, List.take_append_of_le_length hfull]

/-- **A script that does not fit is cut off where the room ends.** Whatever commands are handed over
one after another, failures ignored, the output has received the beginning of their script, as much
of it as there is room for; which commands are taken, and how often the output is flushed, depends
on where their lines end alone. The single calls to write make no difference to this. -/
theorem torn_of_room (most : Nat) (whenFull : WhenFull) (commands : List Command) :
    Torn most whenFull (script ⟨some most, whenFull⟩) commands ∧
      Torn most whenFull (stepwise ⟨some most, whenFull⟩) commands :=
  ⟨(fills_script most whenFull).torn commands, (fills_stepwise most whenFull).torn commands⟩

/-- There is room for the first of two lines, `mkdir d`, and for nothing else. -/
example (whenFull : WhenFull) :
    ((script ⟨some 8, whenFull⟩).takeAll
      [.mkdir (.ofString "d"), .remove (.ofString "d") false] {}).2.flushes = 1 := by
  cases whenFull <;> decide +kernel

end Sink

end TreePlan

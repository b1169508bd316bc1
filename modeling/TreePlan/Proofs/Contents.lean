import TreePlan.Proofs.Disk.Resolve

/-!
# Comparison of contents

How a file arrives is not up to the program that reads it: each time a buffer is filled, the reader
delivers as much as it likes. So the comparison of two files is looked at as a loop over two readers
of which every refill is free, and the two are independent of each other.

* `Reader.Fills` is what filling a buffer may come to, and `round` is one round of the loop.
* `wellFounded_leads`: no way of delivering makes the loop go on for ever.
* `Compares.eq_decide`: whenever it ends, the answer is whether the contents are equal.
* `compares_of_has`: `sameChunks` is this loop, for contents that are delivered in the given
  chunks.
-/

namespace TreePlan.Contents

/-! ## Readers -/

structure Reader where
  /-- What was delivered and not yet consumed. -/
  buffer : Bytes
  /-- What was not yet delivered. -/
  ahead : Bytes

namespace Reader

/-- Nothing was delivered so far. -/
def start (contents : Bytes) : Reader := ⟨[], contents⟩

/-- All that was not yet consumed. -/
def rest (r : Reader) : Bytes := r.buffer ++ r.ahead

def consume (n : Nat) (r : Reader) : Reader := { r with buffer := r.buffer.drop n }

/-- What filling a buffer may come to. A buffer that is not empty is left alone. Any piece of what
is ahead may be delivered into an empty one, but an empty piece only at the end. -/
inductive Fills : Reader → Reader → Prop
  | kept {buffer ahead : Bytes} (h : buffer ≠ []) : Fills ⟨buffer, ahead⟩ ⟨buffer, ahead⟩
  | refilled {chunk ahead : Bytes} (h : chunk ≠ []) : Fills ⟨[], chunk ++ ahead⟩ ⟨chunk, ahead⟩
  | ended : Fills ⟨[], []⟩ ⟨[], []⟩

/-- A reader whose buffer is empty only at the end. -/
def Filled (r : Reader) : Prop := r.buffer = [] → r.ahead = []

@[simp] theorem rest_start (contents : Bytes) : (start contents).rest = contents := rfl

theorem rest_consume {n : Nat} {r : Reader} (h : n ≤ r.buffer.length) :
    (r.consume n).rest = r.rest.drop n := by
  rw [rest, rest, consume, List.drop_append_of_le_length h]

theorem exists_fills (r : Reader) : ∃ after, Fills r after := by
  obtain ⟨_ | ⟨x, buffer⟩, ahead⟩ := r
  · cases ahead with
    | nil => exact ⟨_, .ended⟩
    | cons x ahead => exact ⟨⟨[x], ahead⟩, .refilled (List.cons_ne_nil x [])⟩
  · exact ⟨_, .kept (List.cons_ne_nil x buffer)⟩

section
variable {r after : Reader}

/-- Filling a buffer loses nothing and brings nothing else. -/
theorem Fills.rest_eq (h : Fills r after) : after.rest = r.rest := by
  cases h <;> rfl

theorem Fills.filled (h : Fills r after) : after.Filled := by
  cases h with
  | kept hne | refilled hne => exact fun hnil => absurd hnil hne
  | ended => exact fun _ => rfl

theorem Filled.rest_eq_nil_iff (h : r.Filled) : r.rest = [] ↔ r.buffer = [] := by
  rw [rest, List.append_eq_nil_iff]
  exact and_iff_left_of_imp h

end

end Reader

/-! ## One round -/

/-- What comes of a round: an answer, or the readers for the next round. -/
inductive Outcome where
  | answer (same : Bool)
  | again (a b : Reader)

def common (a b : Reader) : Nat := min a.buffer.length b.buffer.length

theorem common_le_left (a b : Reader) : common a b ≤ a.buffer.length := Nat.min_le_left _ _

theorem common_le_right (a b : Reader) : common a b ≤ b.buffer.length := Nat.min_le_right _ _

/-- One round of the comparison, with buffers that are filled: whether one of them is at its end,
and if not, whether their common part is the same, which is then consumed. -/
def round (a b : Reader) : Outcome :=
  if a.buffer = [] ∨ b.buffer = [] then .answer (a.buffer = [] ∧ b.buffer = [])
  else if a.buffer.take (common a b) = b.buffer.take (common a b) then
    .again (a.consume (common a b)) (b.consume (common a b))
  else .answer false

section
variable {a b a' b' : Reader} {same : Bool}

/-- Contents that start in the same way are equal if what follows is. -/
theorem eq_iff_of_take_eq {xs ys : Bytes} {n : Nat} (h : xs.take n = ys.take n) :
    xs = ys ↔ xs.drop n = ys.drop n := by
  constructor
  · exact congrArg (List.drop n)
  · intro hdrop
    rw [← List.take_append_drop n xs, h, hdrop, List.take_append_drop]

/-- An answer is right for what is left of the files. -/
theorem eq_decide_of_round (ha : a.Filled) (hb : b.Filled) (h : round a b = .answer same) :
    same = decide (a.rest = b.rest) := by
  unfold round at h
  split at h
  · -- one of the files is at its end
    next hend =>
    obtain rfl : decide (a.buffer = [] ∧ b.buffer = []) = same := Outcome.answer.inj h
    rw [decide_eq_decide, ← ha.rest_eq_nil_iff, ← hb.rest_eq_nil_iff]
    constructor
    · rintro ⟨hnil, hnil'⟩
      rw [hnil, hnil']
    · intro heq
      rcases hend with hnil | hnil
      · have hrest := ha.rest_eq_nil_iff.mpr hnil
        exact ⟨hrest, heq ▸ hrest⟩
      · have hrest := hb.rest_eq_nil_iff.mpr hnil
        exact ⟨heq.trans hrest, hrest⟩
  · split at h
    · cases h
    · next hne =>
      obtain rfl : false = same := Outcome.answer.inj h
      -- Equal contents would have had the same common part.
      refine (decide_eq_false fun heq => hne ?_).symm
      have htake := congrArg (List.take (common a b)) heq
      rwa [Reader.rest, Reader.rest, List.take_append_of_le_length (common_le_left a b),
        List.take_append_of_le_length (common_le_right a b)] at htake

/-- Where no answer is given, the common part of two buffers is consumed: what is left is equal if
it was before, and it is less. -/
theorem rest_of_round (h : round a b = .again a' b') :
    (a.rest = b.rest ↔ a'.rest = b'.rest) ∧
      a'.rest.length + b'.rest.length < a.rest.length + b.rest.length := by
  unfold round at h
  split at h
  · cases h
  · next hend =>
    rw [not_or] at hend
    split at h
    · next htake =>
      obtain ⟨rfl, rfl⟩ := Outcome.again.inj h
      have hleft := common_le_left a b
      have hright := common_le_right a b
      -- Neither buffer is empty, so something is consumed.
      have hpos : 0 < common a b :=
        Nat.lt_min.mpr ⟨List.length_pos_iff.mpr hend.1, List.length_pos_iff.mpr hend.2⟩
      rw [Reader.rest_consume hleft, Reader.rest_consume hright]
      constructor
      · apply eq_iff_of_take_eq
        rwa [Reader.rest, Reader.rest, List.take_append_of_le_length hleft,
          List.take_append_of_le_length hright]
      · simp only [Reader.rest, List.length_drop, List.length_append]
        omega
    · cases h

end

/-! ## The loop -/

/-- One round leads from two readers to two others, for some way of filling the buffers. -/
def Leads (next now : Reader × Reader) : Prop :=
  ∃ a b, now.1.Fills a ∧ now.2.Fills b ∧ round a b = .again next.1 next.2

/-- The loop may end with an answer, for some way of filling the buffers. -/
inductive Compares : Reader → Reader → Bool → Prop
  | answer {a b filledA filledB : Reader} {same : Bool} (ha : a.Fills filledA)
      (hb : b.Fills filledB) (h : round filledA filledB = .answer same) : Compares a b same
  | again {a b filledA filledB nextA nextB : Reader} {same : Bool} (ha : a.Fills filledA)
      (hb : b.Fills filledB) (h : round filledA filledB = .again nextA nextB)
      (hnext : Compares nextA nextB same) : Compares a b same

/-- **The loop does not go on for ever**, however the files are delivered. -/
theorem wellFounded_leads : WellFounded Leads := by
  refine Subrelation.wf ?_
    (measure fun now : Reader × Reader => now.1.rest.length + now.2.rest.length).wf
  rintro next now ⟨a, b, ha, hb, hround⟩
  have hless := (rest_of_round hround).2
  rwa [ha.rest_eq, hb.rest_eq] at hless

/-- **The answer is whether the contents are equal**, however the files are delivered. -/
theorem Compares.eq_decide {a b : Reader} {same : Bool} (h : Compares a b same) :
    same = decide (a.rest = b.rest) := by
  induction h with
  | answer ha hb hround =>
      rw [← ha.rest_eq, ← hb.rest_eq]
      exact eq_decide_of_round ha.filled hb.filled hround
  | again ha hb hround _ ih =>
      rw [← ha.rest_eq, ← hb.rest_eq, ih]
      exact decide_eq_decide.mpr (rest_of_round hround).1.symm

/-- From any two readers there is a way to an answer. -/
theorem exists_compares (a b : Reader) : ∃ same, Compares a b same := by
  generalize hnow : (a, b) = now
  induction now using wellFounded_leads.induction generalizing a b with
  | _ now ih =>
      subst hnow
      obtain ⟨filledA, ha⟩ := a.exists_fills
      obtain ⟨filledB, hb⟩ := b.exists_fills
      cases hround : round filledA filledB with
      | answer same => exact ⟨same, .answer ha hb hround⟩
      | again nextA nextB =>
          obtain ⟨same, hnext⟩ := ih _ ⟨_, _, ha, hb, hround⟩ nextA nextB rfl
          exact ⟨same, .again ha hb hround hnext⟩

/-! ## Chunks -/

/-- A reader may deliver contents in these chunks: each is a piece of what remains and not empty,
and in the end nothing remains. -/
inductive Delivers : Bytes → List Bytes → Prop
  | ended : Delivers [] []
  | refill {chunk ahead : Bytes} {later : List Bytes} (h : chunk ≠ [])
      (hlater : Delivers ahead later) : Delivers (chunk ++ ahead) (chunk :: later)

/-- What is left of the chunks: what the buffer holds of the current one, if anything, and then
those in which the rest is going to be delivered. -/
inductive Reader.Has : Reader → List Bytes → Prop
  | fresh {ahead : Bytes} {later : List Bytes} (h : Delivers ahead later) : Has ⟨[], ahead⟩ later
  | within {buffer ahead : Bytes} {later : List Bytes} (hne : buffer ≠ [])
      (h : Delivers ahead later) : Has ⟨buffer, ahead⟩ (buffer :: later)

/-- Behind the last chunk the buffer stays empty. -/
theorem Reader.Has.fills_nil {r : Reader} (h : r.Has []) : r.Fills ⟨[], []⟩ := by
  cases h with
  | fresh h =>
      cases h
      exact .ended

/-- The next chunk is in the buffer once that is filled. -/
theorem Reader.Has.exists_fills_cons {r : Reader} {chunk : Bytes} {later : List Bytes}
    (h : r.Has (chunk :: later)) :
    ∃ ahead, r.Fills ⟨chunk, ahead⟩ ∧ chunk ≠ [] ∧ Delivers ahead later := by
  cases h with
  | within hne h => exact ⟨_, .kept hne, hne, h⟩
  | fresh h =>
      cases h with
      | refill hne hlater => exact ⟨_, .refilled hne, hne, hlater⟩

/-- What is consumed of a buffer is consumed of the chunk in it. -/
theorem has_consume {chunk ahead : Bytes} {later : List Bytes} (h : Delivers ahead later)
    (n : Nat) :
    (Reader.consume n ⟨chunk, ahead⟩).Has (consume n chunk later) := by
  unfold consume Reader.consume
  split
  · next hlength =>
    rw [List.drop_eq_nil_of_le hlength]
    exact .fresh h
  · next hlength =>
    refine .within (fun hnil => hlength ?_) h
    exact List.drop_eq_nil_iff.mp hnil

theorem sameChunks_cons_cons {n : Nat} {chunk other : Bytes}
    (hn : min chunk.length other.length = n) (as bs : List Bytes) :
    sameChunks (chunk :: as) (other :: bs) =
      if chunk.take n = other.take n then sameChunks (consume n chunk as) (consume n other bs)
      else false := by
  rw [sameChunks, hn]

/-- **Comparing chunk by chunk is the loop**, for readers that deliver these chunks. -/
theorem compares_of_has {a b : Reader} {as bs : List Bytes} (ha : a.Has as) (hb : b.Has bs) :
    Compares a b (sameChunks as bs) := by
  -- The induction is on the rounds that are left, of which there are finitely many.
  generalize hnow : (a, b) = now
  induction now using wellFounded_leads.induction generalizing a b as bs with
  | _ now ih =>
      subst hnow
      cases as with
      | nil =>
          cases bs with
          | nil =>  -- both files are at their ends
              rw [sameChunks]
              exact .answer ha.fills_nil hb.fills_nil rfl
          | cons other bs =>  -- the second file is longer
              obtain ⟨ahead', hfills', hne', -⟩ := hb.exists_fills_cons
              rw [sameChunks]
              exact .answer ha.fills_nil hfills' (by simp [round, hne'])
      | cons chunk as =>
          obtain ⟨ahead, hfills, hne, has⟩ := ha.exists_fills_cons
          cases bs with
          | nil =>  -- the first file is longer
              rw [sameChunks]
              exact .answer hfills hb.fills_nil (by simp [round, hne])
          | cons other bs =>
              obtain ⟨ahead', hfills', hne', hbs⟩ := hb.exists_fills_cons
              obtain ⟨n, hn⟩ : ∃ n, common ⟨chunk, ahead⟩ ⟨other, ahead'⟩ = n := ⟨_, rfl⟩
              have hboth : ¬ (chunk = [] ∨ other = []) := by simp [hne, hne']
              rw [sameChunks_cons_cons hn]
              by_cases htake : chunk.take n = other.take n
              · -- the common part is the same, and is consumed
                have hround : round ⟨chunk, ahead⟩ ⟨other, ahead'⟩ =
                    .again (.consume n ⟨chunk, ahead⟩) (.consume n ⟨other, ahead'⟩) := by
                  rw [round, if_neg hboth, hn, if_pos htake]
                rw [if_pos htake]
                have hleads :
                    Leads (.consume n ⟨chunk, ahead⟩, .consume n ⟨other, ahead'⟩) (a, b) :=
                  ⟨_, _, hfills, hfills', hround⟩
                exact .again hfills hfills' hround
                  (ih _ hleads (has_consume has n) (has_consume hbs n) rfl)
              · -- the files differ here
                have hround : round ⟨chunk, ahead⟩ ⟨other, ahead'⟩ = .answer false := by
                  rw [round, if_neg hboth, hn, if_neg htake]
                rw [if_neg htake]
                exact .answer hfills hfills' hround

theorem sameChunks_eq_decide {a b : Bytes} {as bs : List Bytes} (ha : Delivers a as)
    (hb : Delivers b bs) : sameChunks as bs = decide (a = b) := by
  have hcompares : Compares (.start a) (.start b) (sameChunks as bs) :=
    compares_of_has (.fresh ha) (.fresh hb)
  exact hcompares.eq_decide

/-- A reader that fills its buffer each time delivers the contents. -/
theorem delivers_chunks (size : Nat) (contents : Bytes) :
    Delivers contents (chunks size contents) := by
  induction contents using chunks.induct size with
  | case1 =>
      rw [chunks]
      exact .ended
  | case2 x rest ih =>
      rw [chunks]
      have hdelivers := Delivers.refill (List.cons_ne_nil x (rest.take size)) ih
      rwa [List.cons_append, List.take_append_drop] at hdelivers

/-- Files of different lengths are different, so looking at the lengths first changes nothing. -/
theorem length_eq_and_sameChunks {a b : Bytes} {as bs : List Bytes} (ha : Delivers a as)
    (hb : Delivers b bs) :
    (decide (a.length = b.length) && sameChunks as bs) = sameChunks as bs := by
  rw [sameChunks_eq_decide ha hb, Bool.and_eq_right_iff_imp, decide_eq_true_iff, decide_eq_true_iff]
  exact congrArg List.length

theorem same_eq_decide (a b : Bytes) : same a b = decide (a = b) := by
  have ha := delivers_chunks bufferSize a
  have hb := delivers_chunks bufferSize b
  rw [same, length_eq_and_sameChunks ha hb, sameChunks_eq_decide ha hb]

end TreePlan.Contents

/-! ## Files on a disk -/

namespace TreePlan.Disk

/-- A regular file with the given contents is at a path, links followed. -/
def HasFile (disk : Disk) (here : Location) (path : Path) (contents : Bytes) : Prop :=
  ∃ location, disk.find here path = .ok (location, .file contents)

variable {disk : Disk} {here : Location}

/-- Two files are told to be the same if their contents are equal. -/
theorem same_of_hasFile {p q : Path} {a b : Bytes} (hp : disk.HasFile here p a)
    (hq : disk.HasFile here q b) : disk.same here p q = .ok (decide (a = b)) := by
  obtain ⟨_, hp⟩ := hp
  obtain ⟨_, hq⟩ := hq
  have hnode : disk.nodeAt here p = .ok (.file a) := by rw [nodeAt, hp]
  have hother : disk.nodeAt here q = .ok (.file b) := by rw [nodeAt, hq]
  have hsame : disk.same here p q =
      if a.length ≠ b.length then .ok false else .ok (Contents.same a b) := by
    rw [same, hnode, hother]
    rfl
  rw [hsame, Contents.same_eq_decide]
  split
  · next hlength => rw [decide_eq_false fun heq => hlength (congrArg List.length heq)]
  · rfl

theorem same_eq_true_iff {p q : Path} {a b : Bytes} (hp : disk.HasFile here p a)
    (hq : disk.HasFile here q b) : disk.same here p q = .ok true ↔ a = b := by
  rw [same_of_hasFile hp hq, Except.ok.injEq, decide_eq_true_iff]

/-- To be the same is an equivalence of the files that can be read. -/
theorem equivalence_same (disk : Disk) (here : Location) :
    Equivalence fun p q : {path // ∃ contents, disk.HasFile here path contents} =>
      disk.same here p q = .ok true where
  refl := by
    rintro ⟨p, a, hp⟩
    exact (same_eq_true_iff hp hp).mpr rfl
  symm := by
    rintro ⟨p, a, hp⟩ ⟨q, b, hq⟩ h
    exact (same_eq_true_iff hq hp).mpr ((same_eq_true_iff hp hq).mp h).symm
  trans := by
    rintro ⟨p, a, hp⟩ ⟨q, b, hq⟩ ⟨r, c, hr⟩ hpq hqr
    have hab := (same_eq_true_iff hp hq).mp hpq
    exact (same_eq_true_iff hp hr).mpr (hab.trans ((same_eq_true_iff hq hr).mp hqr))

end TreePlan.Disk

namespace TreePlan

open Contents

/-- **Comparing files piece by piece decides whether they are equal.** However two readers deliver
what they have left, the loop comes to an end, with one possible answer: whether the same is left of
both files. For two files that are delivered in chunks, whichever they are, the comparison of the
chunks is this loop, and tells whether the contents are equal; comparing the lengths first changes
nothing about that. So two files on a disk are told to be the same if their contents are equal,
which is an equivalence. -/
theorem comparison_decides_equality :
    (∀ a b : Reader, Acc Leads (a, b) ∧
      ∀ answer, Compares a b answer ↔ answer = decide (a.rest = b.rest)) ∧
    (∀ (a b : Bytes) (as bs : List Bytes), Delivers a as → Delivers b bs →
      Compares (.start a) (.start b) (sameChunks as bs) ∧ sameChunks as bs = decide (a = b) ∧
        (decide (a.length = b.length) && sameChunks as bs) = sameChunks as bs) ∧
    ∀ (disk : Disk) (here : Location),
      (∀ p q a b, disk.HasFile here p a → disk.HasFile here q b →
        disk.same here p q = .ok (decide (a = b))) ∧
      Equivalence fun p q : {path // ∃ contents, disk.HasFile here path contents} =>
        disk.same here p q = .ok true := by
  refine ⟨fun a b => ⟨wellFounded_leads.apply _, fun answer => ⟨Compares.eq_decide, ?_⟩⟩, ?_, ?_⟩
  · rintro rfl
    obtain ⟨found, hfound⟩ := exists_compares a b
    exact hfound.eq_decide ▸ hfound
  · intro a b as bs ha hb
    exact ⟨compares_of_has (.fresh ha) (.fresh hb), sameChunks_eq_decide ha hb,
      length_eq_and_sameChunks ha hb⟩
  · intro disk here
    exact ⟨fun p q a b => Disk.same_of_hasFile, Disk.equivalence_same disk here⟩

/-- One file in two ways of delivering it, and a link to it. -/
theorem comparison_decides_equality_link :
    let contents : Bytes := [0x31, 0x32, 0x33]
    let disk : Disk := ⟨[([Bytes.ofString "f"], .file contents),
      ([Bytes.ofString "l"], .link (.ofString "f"))]⟩
    Delivers contents [[0x31], [0x32, 0x33]] ∧ Delivers contents [[0x31, 0x32], [0x33]] ∧
      sameChunks [[0x31], [0x32, 0x33]] [[0x31, 0x32], [0x33]] = true ∧
      disk.HasFile [] (.ofString "f") contents ∧ disk.HasFile [] (.ofString "l") contents ∧
      disk.same [] (.ofString "l") (.ofString "f") = .ok true := by
  intro contents disk
  have hone : Delivers ([0x31] ++ ([0x32, 0x33] ++ [])) [[0x31], [0x32, 0x33]] :=
    .refill (List.cons_ne_nil _ _) (.refill (List.cons_ne_nil _ _) .ended)
  have htwo : Delivers ([0x31, 0x32] ++ ([0x33] ++ [])) [[0x31, 0x32], [0x33]] :=
    .refill (List.cons_ne_nil _ _) (.refill (List.cons_ne_nil _ _) .ended)
  have hfile : disk.HasFile [] (.ofString "f") contents := by
    refine ⟨[Bytes.ofString "f"], Disk.find_of_resolve ?_ (by decide +kernel)⟩
    exact Disk.resolve_of_followFor 5 (by decide +kernel) (by decide +kernel)
  have hlink : disk.HasFile [] (.ofString "l") contents := by
    refine ⟨[Bytes.ofString "f"], Disk.find_of_resolve ?_ (by decide +kernel)⟩
    exact Disk.resolve_of_followFor 5 (by decide +kernel) (by decide +kernel)
  obtain ⟨-, hchunks, hdisk⟩ := comparison_decides_equality
  exact ⟨hone, htwo, (hchunks _ _ _ _ hone htwo).2.1, hfile, hlink,
    (hdisk disk []).1 _ _ _ _ hlink hfile⟩

end TreePlan

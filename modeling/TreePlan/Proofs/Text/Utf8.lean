import TreePlan.Text.Utf8

/-!
# Reading and writing UTF-8

Bytes are read as text by `Utf8.scan`, one character at a time, and text is written as bytes by
`Bytes.ofChars`. Each undoes the other: `decode?_eq_some_iff` says that a byte string is read as a
text exactly if it is what the text is written as.

`Spells n bs` are the forms that both sides share: the code point `n` takes one byte, or two to
four, the first of which says how many they are.
-/

namespace TreePlan.Utf8

/-! ## The forms of a character -/

theorem isTail_iff {b : UInt8} : isTail b = true ↔ 0x80 ≤ b.toNat ∧ b.toNat ≤ 0xBF := by
  simp [isTail, UInt8.le_iff_toNat_le]

section
variable {a : UInt8}

theorem lead_one (h : a.toNat < 0x80) : (lead a).size = 1 := by
  simp only [lead, UInt8.lt_iff_toNat_lt, ← UInt8.toNat_inj, UInt8.reduceToNat]
  grind

theorem lead_two (h : 0xC2 ≤ a.toNat) (h' : a.toNat < 0xE0) :
    (lead a).size = 2 ∧ ∀ b, (lead a).low ≤ b ∧ b ≤ (lead a).high ↔ isTail b = true := by
  have hlead : lead a = ⟨2, 0x80, 0xBF⟩ := by
    simp only [lead, UInt8.lt_iff_toNat_lt, ← UInt8.toNat_inj, UInt8.reduceToNat]
    grind
  simp [hlead, isTail]

/-- The range of the second byte goes with two first bytes that bound it from one side each. -/
theorem lead_eq {size x y : Nat} (low high : UInt8) (hlow : 0x80 ≤ low) (hhigh : high ≤ 0xBF)
    (h : lead a = ⟨size, if a.toNat = x then low else 0x80, if a.toNat = y then high else 0xBF⟩) :
    (lead a).size = size ∧ ∀ b, (lead a).low ≤ b ∧ b ≤ (lead a).high ↔
      isTail b = true ∧ (a.toNat = x → low.toNat ≤ b.toNat) ∧
        (a.toNat = y → b.toNat ≤ high.toNat) := by
  simp only [UInt8.le_iff_toNat_le, UInt8.reduceToNat] at hlow hhigh
  simp only [h, isTail_iff, UInt8.le_iff_toNat_le, apply_ite UInt8.toNat, UInt8.reduceToNat,
    true_and]
  grind

/-- The second of three bytes must not make the character one of fewer bytes or a surrogate. -/
theorem lead_three (h : 0xE0 ≤ a.toNat) (h' : a.toNat < 0xF0) :
    (lead a).size = 3 ∧ ∀ b, (lead a).low ≤ b ∧ b ≤ (lead a).high ↔
      isTail b = true ∧ (a.toNat = 0xE0 → 0xA0 ≤ b.toNat) ∧ (a.toNat = 0xED → b.toNat ≤ 0x9F) := by
  refine lead_eq 0xA0 0x9F (by decide) (by decide) ?_
  simp only [lead, UInt8.lt_iff_toNat_lt, ← UInt8.toNat_inj, UInt8.reduceToNat]
  grind

theorem lead_four (h : 0xF0 ≤ a.toNat) (h' : a.toNat ≤ 0xF4) :
    (lead a).size = 4 ∧ ∀ b, (lead a).low ≤ b ∧ b ≤ (lead a).high ↔
      isTail b = true ∧ (a.toNat = 0xF0 → 0x90 ≤ b.toNat) ∧ (a.toNat = 0xF4 → b.toNat ≤ 0x8F) := by
  refine lead_eq 0x90 0x8F (by decide) (by decide) ?_
  simp only [lead, UInt8.lt_iff_toNat_lt, ← UInt8.toNat_inj, UInt8.reduceToNat]
  grind

theorem lead_range (a : UInt8) :
    ((lead a).size = 1 → a.toNat < 0x80) ∧
      ((lead a).size = 2 → 0xC2 ≤ a.toNat ∧ a.toNat < 0xE0) ∧
      ((lead a).size = 3 → 0xE0 ≤ a.toNat ∧ a.toNat < 0xF0) ∧
      ((lead a).size = 4 → 0xF0 ≤ a.toNat ∧ a.toNat ≤ 0xF4) := by
  simp only [lead, UInt8.lt_iff_toNat_lt, ← UInt8.toNat_inj, UInt8.reduceToNat]
  repeat' split
  all_goals simp
  all_goals omega

end

/-- The code point `n` is written as the given bytes. -/
inductive Spells : Nat → Bytes → Prop
  | one {a : UInt8} (ha : a.toNat < 0x80) : Spells a.toNat [a]
  | two {a b : UInt8} (ha : 0xC2 ≤ a.toNat) (ha' : a.toNat < 0xE0) (hb : isTail b = true) :
      Spells (a.toNat % 32 * 64 + tailBits b) [a, b]
  | three {a b c : UInt8} (ha : 0xE0 ≤ a.toNat) (ha' : a.toNat < 0xF0) (hb : isTail b = true)
      (hlow : a.toNat = 0xE0 → 0xA0 ≤ b.toNat) (hhigh : a.toNat = 0xED → b.toNat ≤ 0x9F)
      (hc : isTail c = true) :
      Spells (a.toNat % 16 * 4096 + tailBits b * 64 + tailBits c) [a, b, c]
  | four {a b c d : UInt8} (ha : 0xF0 ≤ a.toNat) (ha' : a.toNat ≤ 0xF4) (hb : isTail b = true)
      (hlow : a.toNat = 0xF0 → 0x90 ≤ b.toNat) (hhigh : a.toNat = 0xF4 → b.toNat ≤ 0x8F)
      (hc : isTail c = true) (hd : isTail d = true) :
      Spells (a.toNat % 8 * 262144 + tailBits b * 4096 + tailBits c * 64 + tailBits d) [a, b, c, d]

/-! ## Reading one character -/

/-- A character is read from one byte, or from two to four of which the second one is in the range
that goes with the first. -/
theorem next_eq_some {a : UInt8} {rest r : Bytes} {ch : Char} (h : next a rest = (some ch, r)) :
    ((lead a).size = 1 ∧ ch = Char.ofNat a.toNat ∧ rest = r) ∨
      (∃ b, (lead a).size = 2 ∧ ((lead a).low ≤ b ∧ b ≤ (lead a).high) ∧
        ch = Char.ofNat (a.toNat % 32 * 64 + tailBits b) ∧ rest = b :: r) ∨
      (∃ b c, (lead a).size = 3 ∧ ((lead a).low ≤ b ∧ b ≤ (lead a).high) ∧ isTail c = true ∧
        ch = Char.ofNat (a.toNat % 16 * 4096 + tailBits b * 64 + tailBits c) ∧
        rest = b :: c :: r) ∨
      ∃ b c d, (lead a).size = 4 ∧ ((lead a).low ≤ b ∧ b ≤ (lead a).high) ∧ isTail c = true ∧
        isTail d = true ∧
        ch = Char.ofNat
          (a.toNat % 8 * 262144 + tailBits b * 4096 + tailBits c * 64 + tailBits d) ∧
        rest = b :: c :: d :: r := by
  unfold next at h
  grind

theorem exists_spells_of_next {a : UInt8} {rest r : Bytes} {ch : Char}
    (h : next a rest = (some ch, r)) :
    ∃ n bs, Spells n bs ∧ ch = Char.ofNat n ∧ a :: rest = bs ++ r := by
  obtain ⟨hone, htwo, hthree, hfour⟩ := lead_range a
  rcases next_eq_some h with ⟨hsize, rfl, rfl⟩ | ⟨b, hsize, hb, rfl, rfl⟩ |
    ⟨b, c, hsize, hb, hc, rfl, rfl⟩ | ⟨b, c, d, hsize, hb, hc, hd, rfl, rfl⟩
  · -- one byte
    exact ⟨_, _, .one (hone hsize), rfl, rfl⟩
  · -- two bytes
    obtain ⟨ha, ha'⟩ := htwo hsize
    exact ⟨_, _, .two ha ha' (((lead_two ha ha').2 b).mp hb), rfl, rfl⟩
  · -- three bytes
    obtain ⟨ha, ha'⟩ := hthree hsize
    obtain ⟨htail, hlow, hhigh⟩ := ((lead_three ha ha').2 b).mp hb
    exact ⟨_, _, .three ha ha' htail hlow hhigh hc, rfl, rfl⟩
  · -- four bytes
    obtain ⟨ha, ha'⟩ := hfour hsize
    obtain ⟨htail, hlow, hhigh⟩ := ((lead_four ha ha').2 b).mp hb
    exact ⟨_, _, .four ha ha' htail hlow hhigh hc hd, rfl, rfl⟩

theorem exists_next_of_spells {n : Nat} {bs : Bytes} (h : Spells n bs) (rest : Bytes) :
    ∃ a more, bs ++ rest = a :: more ∧ next a more = (some (Char.ofNat n), rest) := by
  cases h with
  | one ha =>
      refine ⟨_, _, rfl, ?_⟩
      simp [next, lead_one ha]
  | @two a b ha ha' hb =>
      obtain ⟨hsize, hrange⟩ := lead_two ha ha'
      refine ⟨_, _, rfl, ?_⟩
      simp [next, hsize, (hrange b).mpr hb]
  | @three a b c ha ha' hb hlow hhigh hc =>
      obtain ⟨hsize, hrange⟩ := lead_three ha ha'
      refine ⟨_, _, rfl, ?_⟩
      simp [next, hsize, (hrange b).mpr ⟨hb, hlow, hhigh⟩, hc]
  | @four a b c d ha ha' hb hlow hhigh hc hd =>
      obtain ⟨hsize, hrange⟩ := lead_four ha ha'
      refine ⟨_, _, rfl, ?_⟩
      simp [next, hsize, (hrange b).mpr ⟨hb, hlow, hhigh⟩, hc, hd]

/-! ## Writing one character -/

theorem isValidChar_of_spells {n : Nat} {bs : Bytes} (h : Spells n bs) : n.isValidChar := by
  unfold Nat.isValidChar
  cases h with
  | one ha => omega
  | two ha ha' hb =>
      rw [isTail_iff] at hb
      unfold tailBits
      omega
  | three ha ha' hb hlow hhigh hc =>
      rw [isTail_iff] at hb hc
      unfold tailBits
      omega
  | four ha ha' hb hlow hhigh hc hd =>
      rw [isTail_iff] at hb hc hd
      unfold tailBits
      omega

/-- What is read as a character is what the character is written as. -/
theorem encode_of_spells {n : Nat} {bs : Bytes} (h : Spells n bs) :
    String.utf8EncodeChar (Char.ofNat n) = bs := by
  have hval : (Char.ofNat n).val.toNat = n := by
    have hvalid := isValidChar_of_spells h
    rw [Char.ofNat, dif_pos hvalid]
    rfl
  have hbits : ∀ b : UInt8, tailBits b = b.toNat % 64 := fun _ => rfl
  have hbyte : ∀ (m : Nat) (b : UInt8), m = b.toNat → UInt8.ofNat m = b := by
    rintro _ b rfl
    exact UInt8.ofNat_toNat
  rw [String.utf8EncodeChar, hval]
  cases h with
  | one ha => rw [if_pos (by omega), UInt8.ofNat_toNat]
  | @two a b ha ha' hb =>
      rw [isTail_iff] at hb
      have := hbits b
      rw [if_neg (by omega), if_pos (by omega), hbyte _ a (by omega), hbyte _ b (by omega)]
  | @three a b c ha ha' hb hlow hhigh hc =>
      rw [isTail_iff] at hb hc
      have := hbits b
      have := hbits c
      rw [if_neg (by omega), if_neg (by omega), if_pos (by omega), hbyte _ a (by omega),
        hbyte _ b (by omega), hbyte _ c (by omega)]
  | @four a b c d ha ha' hb hlow hhigh hc hd =>
      rw [isTail_iff] at hb hc hd
      have := hbits b
      have := hbits c
      have := hbits d
      rw [if_neg (by omega), if_neg (by omega), if_neg (by omega), hbyte _ a (by omega),
        hbyte _ b (by omega), hbyte _ c (by omega), hbyte _ d (by omega)]

theorem spells_encode (c : Char) : Spells c.toNat (String.utf8EncodeChar c) := by
  have hvalid : c.toNat < 0xD800 ∨ 0xDFFF < c.toNat ∧ c.toNat < 0x110000 := c.valid
  have hval : c.val.toNat = c.toNat := rfl
  have htoNat : ∀ {m : Nat}, m < 256 → (UInt8.ofNat m).toNat = m := fun h => by
    rw [UInt8.toNat_ofNat', Nat.mod_eq_of_lt h]
  rw [String.utf8EncodeChar, hval]
  generalize c.toNat = v at hvalid
  have key : ∀ {n : Nat} {bs : Bytes}, Spells n bs → n = v → Spells v bs := fun h heq => heq ▸ h
  -- Each byte holds some digits of the code point to the base 64, below its mark.
  have hlast : (UInt8.ofNat (v % 0x40 + 0x80)).toNat = v % 0x40 + 0x80 := htoNat (by omega)
  have hthird : (UInt8.ofNat (v / 64 % 0x40 + 0x80)).toNat = v / 64 % 0x40 + 0x80 :=
    htoNat (by omega)
  have hsecond : (UInt8.ofNat (v / 4096 % 0x40 + 0x80)).toNat = v / 4096 % 0x40 + 0x80 :=
    htoNat (by omega)
  split
  · -- one byte
    have ha : (UInt8.ofNat v).toNat = v := htoNat (by omega)
    exact key (.one (by omega)) ha
  split
  · -- two bytes
    have ha : (UInt8.ofNat (v / 64 % 0x20 + 0xc0)).toNat = v / 64 % 0x20 + 0xc0 :=
      htoNat (by omega)
    refine key (.two (by omega) (by omega) (isTail_iff.mpr (by omega))) ?_
    simp only [tailBits, ha, hlast]
    omega
  split
  · -- three bytes
    have ha : (UInt8.ofNat (v / 4096 % 0x10 + 0xe0)).toNat = v / 4096 % 0x10 + 0xe0 :=
      htoNat (by omega)
    refine key (.three (by omega) (by omega) (isTail_iff.mpr (by omega)) (by omega) (by omega)
      (isTail_iff.mpr (by omega))) ?_
    simp only [tailBits, ha, hthird, hlast]
    omega
  · -- four bytes
    have ha : (UInt8.ofNat (v / 262144 % 0x08 + 0xf0)).toNat = v / 262144 % 0x08 + 0xf0 :=
      htoNat (by omega)
    refine key (.four (by omega) (by omega) (isTail_iff.mpr (by omega)) (by omega) (by omega)
      (isTail_iff.mpr (by omega)) (isTail_iff.mpr (by omega))) ?_
    simp only [tailBits, ha, hsecond, hthird, hlast]
    omega

/-! ## Whole texts -/

theorem scan_encode (c : Char) (rest : Bytes) :
    scan (String.utf8EncodeChar c ++ rest) = some c :: scan rest := by
  obtain ⟨a, more, heq, hnext⟩ := exists_next_of_spells (spells_encode c) rest
  rw [heq, scan_cons, hnext, Char.ofNat_toNat]

theorem scan_ofChars (cs : List Char) : scan (Bytes.ofChars cs) = cs.map some := by
  induction cs with
  | nil => exact scan_nil
  | cons c cs ih =>
      rw [Bytes.ofChars, List.flatMap_cons, scan_encode, List.map_cons]
      exact congrArg (some c :: ·) ih

theorem allSome_map_some (cs : List Char) : allSome (cs.map some) = some cs := by
  induction cs with
  | nil => rfl
  | cons c cs ih => rw [List.map_cons, allSome, ih, Option.map_some]

theorem decode?_ofChars (cs : List Char) : decode? (Bytes.ofChars cs) = some cs := by
  rw [decode?, scan_ofChars, allSome_map_some]

theorem ofChars_of_scan {bs : Bytes} {cs : List Char} (h : scan bs = cs.map some) :
    Bytes.ofChars cs = bs := by
  induction bs using scan.induct generalizing cs with
  | case1 =>
      rw [scan_nil] at h
      rw [List.map_eq_nil_iff.mp h.symm]
      rfl
  | case2 a rest ih =>
      rw [scan_cons] at h
      obtain ⟨c, cs, rfl, hc, hcs⟩ := List.map_eq_cons_iff.mp h.symm
      obtain ⟨n, bs, hspells, rfl, heq⟩ := exists_spells_of_next (Prod.ext hc.symm rfl)
      have hrest : Bytes.ofChars cs = (next a rest).2 := ih hcs.symm
      rw [heq, ← encode_of_spells hspells]
      exact congrArg (String.utf8EncodeChar (Char.ofNat n) ++ ·) hrest

/-- **Reading undoes writing, and writing undoes reading.** -/
theorem decode?_eq_some_iff {bs : Bytes} {cs : List Char} :
    decode? bs = some cs ↔ bs = Bytes.ofChars cs := by
  constructor
  · intro h
    exact (ofChars_of_scan (eq_map_some_of_allSome h)).symm
  · rintro rfl
    exact decode?_ofChars cs

/-- What is text is shown without loss. -/
theorem ofChars_lossy {bs : Bytes} (h : isText bs = true) : Bytes.ofChars (lossy bs) = bs := by
  obtain ⟨cs, hcs⟩ := Option.isSome_iff_exists.mp h
  rw [lossy_eq_of_decode? hcs, ← decode?_eq_some_iff.mp hcs]

end TreePlan.Utf8

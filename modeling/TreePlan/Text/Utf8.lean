import TreePlan.Bytes

/-!
# UTF-8

Reading byte strings as text, in two ways over one scan:

* `decode?` reads a byte string that is UTF-8 throughout, and refuses any other;
* `lossy` reads every byte string, showing each maximal ill-formed subpart as U+FFFD.

`scan` yields the characters in order, with `none` for an ill-formed subpart: the longest
run of bytes that starts a character without completing it, or one byte that starts none.
So a text that `decode?` accepts is shown by `lossy` unchanged (`lossy_eq_of_decode?`).
-/

namespace TreePlan.Utf8

/-- The shape of a character by its first byte: how many bytes it has (0 if the byte starts
no character) and the range of the second one. -/
structure Lead where
  size : Nat
  low : UInt8 := 0x80
  high : UInt8 := 0xBF
  deriving Repr

/-- Surrogates, overlong forms and code points above U+10FFFF are ruled out by the range of
the second byte. -/
def lead (a : UInt8) : Lead :=
  if a < 0x80 then ⟨1, 0, 0⟩
  else if a < 0xC2 then ⟨0, 0, 0⟩  -- a continuation byte, or the start of an overlong form
  else if a < 0xE0 then ⟨2, 0x80, 0xBF⟩
  else if a = 0xE0 then ⟨3, 0xA0, 0xBF⟩  -- no overlong form
  else if a = 0xED then ⟨3, 0x80, 0x9F⟩  -- no surrogate
  else if a < 0xF0 then ⟨3, 0x80, 0xBF⟩
  else if a = 0xF0 then ⟨4, 0x90, 0xBF⟩  -- no overlong form
  else if a < 0xF4 then ⟨4, 0x80, 0xBF⟩
  else if a = 0xF4 then ⟨4, 0x80, 0x8F⟩  -- nothing above U+10FFFF
  else ⟨0, 0, 0⟩

/-- The six payload bits of a continuation byte. -/
def tailBits (b : UInt8) : Nat := b.toNat % 64

def isTail (b : UInt8) : Bool := 0x80 ≤ b && b ≤ 0xBF

/-- Reads the character that starts with `a`, or drops the maximal ill-formed subpart that
starts there; what is left of the bytes after `a` is returned with it. -/
def next (a : UInt8) (rest : Bytes) : Option Char × Bytes :=
  -- Where a byte does not fit, it stays in front of what is left: it may start a character.
  let l := lead a
  match l.size with
  | 1 => (some (Char.ofNat a.toNat), rest)
  | 2 =>
    match rest with
    | b :: r =>
      if l.low ≤ b && b ≤ l.high then
        (some (Char.ofNat (a.toNat % 32 * 64 + tailBits b)), r)
      else (none, rest)
    | [] => (none, rest)
  | 3 =>
    match rest with
    | b :: r =>
      if l.low ≤ b && b ≤ l.high then
        match r with
        | c :: r' =>
          if isTail c then
            (some (Char.ofNat (a.toNat % 16 * 4096 + tailBits b * 64 + tailBits c)), r')
          else (none, r)
        | [] => (none, r)
      else (none, rest)
    | [] => (none, rest)
  | 4 =>
    match rest with
    | b :: r =>
      if l.low ≤ b && b ≤ l.high then
        match r with
        | c :: r' =>
          if isTail c then
            match r' with
            | d :: r'' =>
              if isTail d then
                (some (Char.ofNat
                  (a.toNat % 8 * 262144 + tailBits b * 4096 + tailBits c * 64 + tailBits d)), r'')
              else (none, r')
            | [] => (none, r')
          else (none, r)
        | [] => (none, r)
      else (none, rest)
    | [] => (none, rest)
  | _ => (none, rest)

/-- Reading one character never lengthens what is left, which is why `scan` ends. -/
theorem length_next_le (a : UInt8) (rest : Bytes) : (next a rest).2.length ≤ rest.length := by
  unfold next
  grind

/-- The characters of a byte string in order, `none` for each maximal ill-formed subpart. -/
def scan : Bytes → List (Option Char)
  | [] => []
  | a :: rest => (next a rest).1 :: scan (next a rest).2
  termination_by bs => bs.length
  decreasing_by
    have := length_next_le a rest
    simp only [List.length_cons]
    omega

@[simp] theorem scan_nil : scan [] = [] := by rw [scan]

theorem scan_cons (a : UInt8) (rest : Bytes) :
    scan (a :: rest) = (next a rest).1 :: scan (next a rest).2 := by rw [scan]

def allSome : List (Option Char) → Option (List Char)
  | [] => some []
  | none :: _ => none
  | some c :: rest => (allSome rest).map (c :: ·)

/-- The text of a byte string that is UTF-8 throughout. -/
def decode? (bs : Bytes) : Option (List Char) := allSome (scan bs)

/-- The text shown for a byte string, whatever its bytes are. -/
def lossy (bs : Bytes) : List Char := (scan bs).map (·.getD '\uFFFD')

def isText (bs : Bytes) : Bool := (decode? bs).isSome

theorem eq_map_some_of_allSome : ∀ {os : List (Option Char)} {cs : List Char},
    allSome os = some cs → os = cs.map some
  | [], _, h => by simp [allSome] at h; simp [← h]
  | none :: _, _, h => by simp [allSome] at h
  | some c :: rest, cs, h => by
    rw [allSome, Option.map_eq_some_iff] at h
    obtain ⟨ds, hd, rfl⟩ := h
    simp [eq_map_some_of_allSome hd]

/-- What is text is shown as that text. -/
theorem lossy_eq_of_decode? {bs : Bytes} {cs : List Char} (h : decode? bs = some cs) :
    lossy bs = cs := by
  rw [lossy, eq_map_some_of_allSome h]
  simp [Function.comp_def]

end TreePlan.Utf8

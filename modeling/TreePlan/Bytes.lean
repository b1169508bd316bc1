/-!
# Byte strings

Paths, entry names and file contents are byte strings: the file system puts no encoding on
them. A byte string is a plain list of bytes, so the order on entry names is the
lexicographic order of `List`, and a prefix of a file is a prefix of a list.
-/

namespace TreePlan

abbrev Bytes := List UInt8

abbrev Name := Bytes

namespace Bytes

def slash : UInt8 := 0x2F

/-- The byte of the names `.` and `..`. -/
def dot : UInt8 := 0x2E

def ofChars (s : List Char) : Bytes := s.flatMap String.utf8EncodeChar

def ofString (s : String) : Bytes := ofChars s.toList

/-- The bytewise order of entry names, as a test. -/
def le (a b : Bytes) : Bool := !decide (b < a)

theorem le_iff {a b : Bytes} : le a b = true ↔ a ≤ b := by simp [le, List.not_lt]

end Bytes

/-! ### Sets of names

A set of entry names is a strictly increasing list, so two listings of one directory in
different orders, or with repetitions, are the same set. -/

/-- The names of a listing in increasing bytewise order, each once. -/
def nameSet (names : List Name) : List Name := (names.mergeSort Bytes.le).eraseReps

end TreePlan

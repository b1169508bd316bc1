import TreePlan.Bytes

/-!
# Comparing contents

Two files are compared piece by piece, so neither has to be held as a whole. Each file
arrives in chunks of whatever sizes its reader delivers; the two sequences of chunks need
not fall into step. In every round the common part of the two current chunks is compared
and consumed.
-/

namespace TreePlan.Contents

/-- What is left to read after `n` bytes of the current chunk are consumed. -/
def consume (n : Nat) (chunk : Bytes) (later : List Bytes) : List Bytes :=
  if chunk.length ≤ n then later else chunk.drop n :: later

theorem length_consume_le (n : Nat) (chunk : Bytes) (later : List Bytes) :
    (consume n chunk later).length ≤ later.length + 1 := by
  unfold consume
  split <;> simp

theorem length_consume_of_le {n : Nat} {chunk : Bytes} (h : chunk.length ≤ n)
    (later : List Bytes) : (consume n chunk later).length = later.length := by
  simp [consume, h]

/-- Whether two files hold the same bytes, given the chunks that are left of each. One of
the two current chunks is used up in every round. -/
def sameChunks : List Bytes → List Bytes → Bool
  | [], [] => true
  | [], _ :: _ => false
  | _ :: _, [] => false
  | a :: as, b :: bs =>
    let n := min a.length b.length
    if a.take n = b.take n then sameChunks (consume n a as) (consume n b bs) else false
  termination_by as bs => as.length + bs.length
  decreasing_by
    have ha := length_consume_le (min a.length b.length) a as
    have hb := length_consume_le (min a.length b.length) b bs
    simp only [List.length_cons]
    -- The shorter of the two current chunks is used up.
    rcases Nat.le_total a.length b.length with h | h
    · have : a.length ≤ min a.length b.length := by omega
      have := length_consume_of_le this as
      omega
    · have : b.length ≤ min a.length b.length := by omega
      have := length_consume_of_le this bs
      omega

/-- The chunks of a reader that fills a buffer of `size + 1` bytes each time. -/
def chunks (size : Nat) : Bytes → List Bytes
  | [] => []
  | a :: rest => (a :: rest.take size) :: chunks size (rest.drop size)
  termination_by contents => contents.length
  decreasing_by
    simp only [List.length_drop, List.length_cons]
    omega

/-- The size of the buffer that a file is read into, less one. -/
def bufferSize : Nat := 64 * 1024 - 1

/-- Whether two files hold the same bytes: their lengths are compared first, then their
chunks. -/
def same (a b : Bytes) : Bool :=
  a.length = b.length && sameChunks (chunks bufferSize a) (chunks bufferSize b)

end TreePlan.Contents

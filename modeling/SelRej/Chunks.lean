import Mathlib.Data.Nat.Notation

/-!
# Reading a list in chunks

A list is read `b` items at a time until a read comes up short. There are
`count` reads; the last one is shorter than `b`, and empty when `b` divides the
length. The chunks put together again are the list.
-/
namespace SelRej.Chunks
variable {α : Type} (xs : List α) (b : ℕ)

def chunk (k : ℕ) : List α := (xs.drop (k * b)).take b

/-- The number of reads up to and including the first short one. -/
def count : ℕ := xs.length / b + 1

theorem chunk_length_le (k : ℕ) : (chunk xs b k).length ≤ b := by
  unfold chunk
  rw [List.length_take]
  omega

theorem flatMap_chunk (n : ℕ) : (List.range n).flatMap (chunk xs b) = xs.take (n * b) := by
  induction n with
  | zero => rw [Nat.zero_mul, List.take_zero]; rfl
  | succ n ih =>
      rw [List.range_succ, List.flatMap_append, ih, List.flatMap_singleton, Nat.succ_mul,
        List.take_add]
      rfl

theorem short_iff (hb : 0 < b) {k : ℕ} : (xs.drop (k * b)).length < b ↔ count xs b ≤ k + 1 := by
  rw [List.length_drop, count, Nat.add_le_add_iff_right, Nat.div_le_iff_le_mul_add_pred hb,
    Nat.mul_comm b k]
  omega

theorem take_count (hb : 0 < b) : xs.take (count xs b * b) = xs := by
  apply List.take_of_length_le
  have hlt := Nat.lt_mul_div_succ xs.length hb
  rw [count, Nat.mul_comm]
  omega

end SelRej.Chunks

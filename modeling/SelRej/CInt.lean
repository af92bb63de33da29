import Mathlib.Data.Int.Notation
import Mathlib.Data.Nat.Notation

/-!
# The integer conversions of C

A 32-bit `int` is an integer, and every C expression of that type is reduced
by `i32`, which is two's-complement wrapping. This is what an unoptimised
compilation does at a signed overflow; where an expression stays in range the
reduction disappears, and `i32_of_range` is the lemma that removes it. `u32`
is the value an `int` takes when it is converted to an unsigned 32-bit integer.
C's `%` truncates and is `Int.tmod`.
-/
namespace SelRej.CInt

/-- The `int` that represents the exact value `x` modulo two to the 32. -/
def i32 (x : ℤ) : ℤ := x.bmod 4294967296

def u32 (x : ℤ) : ℕ := (x % 4294967296).toNat

theorem i32_of_range {x : ℤ} (hlow : -2147483648 ≤ x) (hhigh : x < 2147483648) :
    i32 x = x := by
  unfold i32
  exact Int.bmod_eq_of_le (by omega) (by omega)

theorem i32_natCast {n : ℕ} (hn : n < 2147483648) : i32 n = n :=
  i32_of_range (by omega) (by omega)

/-- From two to the 31 on, an unsigned value becomes a negative `int`. -/
theorem i32_natCast_of_le {n : ℕ} (hn : 2147483648 ≤ n) (hn' : n < 4294967296) :
    i32 n = (n : ℤ) - 4294967296 := by
  unfold i32
  rw [Int.bmod_def]
  split <;> omega

theorem u32_i32 (x : ℤ) : u32 (i32 x) = u32 x := by
  unfold u32 i32
  rw [Int.bmod_def]
  split <;> omega

theorem u32_natCast {n : ℕ} (hn : n < 4294967296) : u32 n = n := by
  unfold u32
  omega

theorem u32_i32_add (n : ℕ) (d : ℤ) : u32 (i32 (i32 n + d)) = u32 (n + d) := by
  rw [u32_i32]
  unfold u32 i32
  rw [Int.bmod_def]
  split <;> omega

theorem i32_i32_add (x y : ℤ) : i32 (i32 x + y) = i32 (x + y) := by
  unfold i32
  exact Int.bmod_add_bmod

/-- On nonnegative operands the truncating `%` is the remainder of naturals. -/
theorem natCast_tmod (m n : ℕ) : (m : ℤ).tmod n = ((m % n : ℕ) : ℤ) := rfl

end SelRej.CInt

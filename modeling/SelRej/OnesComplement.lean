import Mathlib.Data.Nat.Notation

/-!
# Sixteen-bit one's-complement sums

`byteSum` adds the 16-bit little-endian words of a byte string, an odd last
byte counting as the low byte of a word. `fold` adds the carries of a sum back
twice. The folded sum represents the sum modulo 65535, with 65535 rather than
0 for the nonzero multiples, so the folded sum is 65535 exactly when 65535
divides a nonzero sum.
-/
namespace SelRej.OnesComplement

def byteSum : List UInt8 → ℕ
  | [] => 0
  | [b] => b.toNat
  | b₀ :: b₁ :: bs => b₀.toNat + 256 * b₁.toNat + byteSum bs

/-- Add the high half to the low half, then the carry of that addition. -/
def fold (s : ℕ) : ℕ :=
  let t := s / 65536 + s % 65536
  (t + t / 65536) % 65536

theorem fold_zero : fold 0 = 0 := rfl

theorem fold_of_pos {s : ℕ} (hpos : 0 < s) (hs : s < 4294967296) :
    fold s = (s - 1) % 65535 + 1 := by
  have hmod : (s - 1) % 65535 = (s / 65536 + s % 65536 - 1) % 65535 := by
    rw [show s - 1 = 65535 * (s / 65536) + (s / 65536 + s % 65536 - 1) by omega,
      Nat.mul_add_mod]
  simp only [fold, hmod]
  have ht : s / 65536 + s % 65536 ≤ 131070 := by omega
  have ht' : 0 < s / 65536 + s % 65536 := by omega
  generalize s / 65536 + s % 65536 = t at ht ht' ⊢
  by_cases hcarry : t < 65536
  · rw [Nat.div_eq_of_lt hcarry, Nat.mod_eq_of_lt (show t + 0 < 65536 by omega),
      Nat.mod_eq_of_lt (show t - 1 < 65535 by omega)]
    omega
  · rw [show t / 65536 = 1 by omega, Nat.mod_eq_sub_mod (show 65536 ≤ t + 1 by omega),
      Nat.mod_eq_of_lt (show t + 1 - 65536 < 65536 by omega),
      Nat.mod_eq_sub_mod (show 65535 ≤ t - 1 by omega),
      Nat.mod_eq_of_lt (show t - 1 - 65535 < 65535 by omega)]
    omega

theorem fold_le (s : ℕ) : fold s ≤ 65535 := by
  simp only [fold]
  omega

theorem fold_eq_iff {s : ℕ} (hs : s < 4294967296) :
    fold s = 65535 ↔ 0 < s ∧ s % 65535 = 0 := by
  rcases Nat.eq_zero_or_pos s with rfl | hpos
  · simp [fold_zero]
  · rw [fold_of_pos hpos hs]
    omega

/-- Adding the complement of the folded sum makes the folded sum 65535. -/
theorem fold_add_complement {s : ℕ} (hs : s < 4294901760) :
    fold (s + (65535 - fold s)) = 65535 := by
  rw [fold_eq_iff (by omega)]
  rcases Nat.eq_zero_or_pos s with rfl | hpos
  · rw [fold_zero]
    omega
  · rw [fold_of_pos hpos (by omega)]
    omega

theorem byteSum_le (bs : List UInt8) : byteSum bs ≤ 65535 * ((bs.length + 1) / 2) := by
  fun_induction byteSum bs with
  | case1 => simp
  | case2 b =>
      have := b.toNat_lt
      simp only [List.length_singleton]
      omega
  | case3 b₀ b₁ bs ih =>
      have h₀ := b₀.toNat_lt
      have h₁ := b₁.toNat_lt
      simp only [List.length_cons]
      omega

/-- Words do not straddle a boundary that lies at an even position. -/
theorem byteSum_append {as bs : List UInt8} (heven : as.length % 2 = 0) :
    byteSum (as ++ bs) = byteSum as + byteSum bs := by
  fun_induction byteSum as with
  | case1 => simp
  | case2 b =>
      simp only [List.length_singleton] at heven
      omega
  | case3 b₀ b₁ as ih =>
      simp only [List.length_cons] at heven
      have hrest := ih (by omega)
      simp only [List.cons_append, byteSum, hrest]
      omega

/-- A byte is the low or the high byte of its word. -/
def weight (i : ℕ) : ℕ := if i % 2 = 0 then 1 else 256

theorem weight_zero : weight 0 = 1 := rfl

theorem weight_one : weight 1 = 256 := rfl

theorem weight_add_two (i : ℕ) : weight (i + 2) = weight i := by
  simp only [weight, Nat.add_mod_right]

theorem byteSum_set {bs : List UInt8} {i : ℕ} (hi : i < bs.length) (b : UInt8) :
    byteSum (bs.set i b) + weight i * bs[i].toNat = byteSum bs + weight i * b.toNat := by
  fun_induction byteSum bs generalizing i with
  | case1 => cases hi
  | case2 c =>
      obtain rfl : i = 0 := by simpa using hi
      simp only [List.set_cons_zero, List.getElem_cons_zero, byteSum, weight_zero]
      omega
  | case3 b₀ b₁ bs ih =>
      match i with
      | 0 =>
          simp only [List.set_cons_zero, List.getElem_cons_zero, byteSum, weight_zero]
          omega
      | 1 =>
          simp only [List.set_cons_succ, List.set_cons_zero, List.getElem_cons_succ,
            List.getElem_cons_zero, byteSum, weight_one]
          omega
      | i + 2 =>
          have hrest := ih (i := i) (by simpa using hi)
          simp only [List.set_cons_succ, List.getElem_cons_succ, byteSum, weight_add_two]
          omega

/-- The change of one byte is less than 65535 in the sum, so a folded sum of
65535 does not survive it. -/
theorem fold_set_ne {bs : List UInt8} {i : ℕ} (hi : i < bs.length) {b : UInt8} (hb : b ≠ bs[i])
    (hsum : byteSum bs < 4294901760) (hfold : fold (byteSum bs) = 65535) :
    fold (byteSum (bs.set i b)) ≠ 65535 := by
  have hset := byteSum_set hi b
  have hold := bs[i].toNat_lt
  have hnew := b.toNat_lt
  have hne : b.toNat ≠ bs[i].toNat := fun h => hb (UInt8.toNat_inj.mp h)
  have hweight : weight i = 1 ∨ weight i = 256 := by
    unfold weight
    split <;> simp
  rw [fold_eq_iff (by omega)] at hfold
  rcases hweight with hone | hhigh
  · rw [hone] at hset
    rw [Ne, fold_eq_iff (by omega)]
    omega
  · rw [hhigh] at hset
    rw [Ne, fold_eq_iff (by omega)]
    omega

end SelRej.OnesComplement

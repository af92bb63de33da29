import Mathlib.Logic.Function.Basic
import Mathlib.Data.Int.Notation
import Mathlib.Data.Nat.Notation
import Mathlib.Tactic.SplitIfs

/-!
# Circular arrays read through an interval of numbers

An array of `w` slots stores an item numbered `k` at index `k % w`. For the
`w` consecutive numbers from `lo` on, every index is the slot of exactly one
of them, so the whole array is a function on that interval. `Holds` states
this reading; writing one number and moving the interval up by one are the
two ways in which it changes.
-/
namespace SelRej.CircularArray

theorem eq_of_mod_eq {w lo j k : ℕ} (hj : lo ≤ j) (hj' : j < lo + w) (hk : lo ≤ k)
    (hk' : k < lo + w) (h : j % w = k % w) : j = k := by
  have hjk : (j - k) % w = 0 := Nat.sub_mod_eq_zero_of_mod_eq h
  have hkj : (k - j) % w = 0 := Nat.sub_mod_eq_zero_of_mod_eq h.symm
  rw [Nat.mod_eq_of_lt (by omega)] at hjk hkj
  omega

theorem mod_eq_of_mem {w lo k : ℕ} (hk : lo ≤ k) (hk' : k < lo + w) :
    k % w = if lo % w + (k - lo) < w then lo % w + (k - lo) else lo % w + (k - lo) - w := by
  have hw : 0 < w := by omega
  have hlo := Nat.mod_lt lo hw
  have h : k % w = (lo % w + (k - lo)) % w := by
    rw [Nat.mod_add_mod]
    congr 1
    omega
  rw [h]
  split_ifs with hlt
  · exact Nat.mod_eq_of_lt hlt
  · rw [Nat.mod_eq_sub_mod (by omega), Nat.mod_eq_of_lt (by omega)]

theorem exists_mod_eq {w i : ℕ} (lo : ℕ) (hi : i < w) :
    ∃ k, lo ≤ k ∧ k < lo + w ∧ k % w = i := by
  have hlo := Nat.mod_lt lo (show 0 < w by omega)
  refine ⟨if lo % w ≤ i then lo + (i - lo % w) else lo + (w + i) - lo % w, ?_, ?_, ?_⟩
  · split_ifs <;> omega
  · split_ifs <;> omega
  · split_ifs with h
    · rw [mod_eq_of_mem (Nat.le_add_right lo _) (by omega), if_pos (by omega)]
      omega
    · rw [mod_eq_of_mem (show lo ≤ lo + (w + i) - lo % w by omega) (by omega), if_neg (by omega)]
      omega

/-- The number of slots from the last index of the interval up to a member's
index counts the members below it. -/
theorem distance_eq {w lo k : ℕ} (hk : lo ≤ k) (hk' : k < lo + w) :
    (k % w + w - 1 - (lo + w - 1) % w) % w = k - lo := by
  have hw : 0 < w := by omega
  have hlo := Nat.mod_lt lo hw
  have hlast := mod_eq_of_mem (show lo ≤ lo + w - 1 by omega) (show lo + w - 1 < lo + w by omega)
  have hmem := mod_eq_of_mem hk hk'
  split_ifs at hlast hmem with h₁ h₂ h₂
  · rw [Nat.mod_eq_of_lt (by omega)]
    omega
  · omega
  · rw [Nat.mod_eq_sub_mod (by omega), Nat.mod_eq_of_lt (by omega)]
    omega
  · rw [Nat.mod_eq_of_lt (by omega)]
    omega

section
variable {α : Type} {queue : ℤ → Option α} {w lo : ℕ} {f g : ℕ → Option α}

/-- Slot `k % w` holds `f k` for each of the `w` numbers from `lo` on. -/
def Holds (queue : ℤ → Option α) (w lo : ℕ) (f : ℕ → Option α) : Prop :=
  ∀ k, lo ≤ k → k < lo + w → queue ((k % w : ℕ) : ℤ) = f k

theorem Holds.congr (h : Holds queue w lo f)
    (hfg : ∀ k, lo ≤ k → k < lo + w → f k = g k) : Holds queue w lo g :=
  fun k hk hk' => (h k hk hk').trans (hfg k hk hk')

theorem holds_none_iff :
    Holds queue w lo (fun _ => none) ↔ ∀ i : ℕ, i < w → queue i = none := by
  constructor
  · intro h i hi
    obtain ⟨k, hk, hk', rfl⟩ := exists_mod_eq lo hi
    exact h k hk hk'
  · intro h k hk hk'
    exact h _ (Nat.mod_lt k (by omega))

theorem Holds.write (h : Holds queue w lo f) {k : ℕ} (hk : lo ≤ k) (hk' : k < lo + w)
    (v : Option α) :
    Holds (Function.update queue ((k % w : ℕ) : ℤ) v) w lo (Function.update f k v) := by
  intro j hj hj'
  by_cases hjk : j = k
  · subst hjk
    simp only [Function.update_self]
  · have hmod : ((j % w : ℕ) : ℤ) ≠ ((k % w : ℕ) : ℤ) := by
      intro he
      exact hjk (eq_of_mod_eq hj hj' hk hk' (Int.ofNat.inj he))
    rw [Function.update_of_ne hmod, Function.update_of_ne hjk]
    exact h j hj hj'

/-- The interval moves up by one when its first slot already holds what the
number one whole turn above it stands for. -/
theorem Holds.advance (h : Holds queue w lo f) (hturn : f lo = f (lo + w)) :
    Holds queue w (lo + 1) f := by
  intro k hk hk'
  by_cases hlast : k = lo + w
  · subst hlast
    rw [Nat.add_mod_right, h lo (Nat.le_refl lo) (by omega), hturn]
  · exact h k (by omega) (by omega)

end
end SelRej.CircularArray

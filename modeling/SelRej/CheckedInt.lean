import SelRej.CInt
import SelRej.Emit

/-!
# Signed overflow as a fault

C leaves the result of a signed overflow undefined. `checked` computes an `int`
expression and faults where its exact value is no `int`. `Checks x y` relates a
computation `x` that checks its expressions to the computation `y` in which
they wrap around: either an expression of `x` overflows, or `x` does what `y`
does. It is preserved by sequencing, so it is proved along the program text.
-/
namespace SelRej.CInt

/-- A computation stops as it would with wrapping, or at an overflow. -/
inductive Fault (ε : Type) where
  | halt (e : ε)
  | overflow
  deriving DecidableEq, Repr

variable {ε α β : Type}

def unchecked (x : Except ε α) : Except (Fault ε) α := x.mapError .halt

def checked (x : ℤ) : Except (Fault ε) ℤ :=
  if -2147483648 ≤ x ∧ x < 2147483648 then .ok x else .error .overflow

theorem unchecked_ok (a : α) : unchecked (.ok a : Except ε α) = .ok a := rfl

theorem unchecked_error (e : ε) : unchecked (.error e : Except ε α) = .error (.halt e) := rfl

theorem unchecked_ne_overflow (x : Except ε α) : unchecked x ≠ .error .overflow := by
  intro h
  cases x <;> cases h

theorem checked_of_range {x : ℤ} (hlow : -2147483648 ≤ x) (hhigh : x < 2147483648) :
    (checked x : Except (Fault ε) ℤ) = .ok x :=
  if_pos ⟨hlow, hhigh⟩

theorem checked_of_le {x : ℤ} (h : 2147483648 ≤ x) :
    (checked x : Except (Fault ε) ℤ) = .error .overflow :=
  if_neg (by omega)

def Checks (x : Except (Fault ε) α) (y : Except ε α) : Prop :=
  x = .error .overflow ∨ x = unchecked y

section
variable {x : Except (Fault ε) α} {y : Except ε α} {f : α → Except (Fault ε) β}
  {g : α → Except ε β}

theorem checks_unchecked (y : Except ε α) : Checks (unchecked y) y := .inr rfl

theorem checks_ok (a : α) : Checks (.ok a : Except (Fault ε) α) (.ok a) := .inr rfl

theorem Checks.bind (h : Checks x y) (hfg : ∀ a, Checks (f a) (g a)) :
    Checks (x >>= f) (y >>= g) := by
  rcases h with rfl | rfl
  · exact .inl (error_bind _ f)
  · cases y with
    | error e =>
        rw [unchecked_error, error_bind, error_bind]
        exact .inr rfl
    | ok a =>
        rw [unchecked_ok, ok_bind, ok_bind]
        exact hfg a

/-- A checked expression stands where the other computation has the wrapped value. -/
theorem checks_int {v : ℤ} {f : ℤ → Except (Fault ε) β} {y : Except ε β}
    (h : Checks (f (i32 v)) y) : Checks (checked v >>= f) y := by
  by_cases hv : -2147483648 ≤ v ∧ v < 2147483648
  · rw [checked_of_range hv.1 hv.2, ok_bind]
    rwa [i32_of_range hv.1 hv.2] at h
  · rw [checked, if_neg hv, error_bind]
    exact .inl rfl

theorem checks_ite {p : Prop} [Decidable p] {x' : Except (Fault ε) α} {y' : Except ε α}
    (h : Checks x y) (h' : Checks x' y') : Checks (if p then x else x') (if p then y else y') := by
  split
  · exact h
  · exact h'

theorem bind_ne_overflow (hx : x ≠ .error .overflow) (hf : ∀ a, f a ≠ .error .overflow) :
    x >>= f ≠ .error .overflow := by
  cases x with
  | error e =>
      rw [error_bind]
      intro h
      cases h
      exact hx rfl
  | ok a =>
      rw [ok_bind]
      exact hf a

theorem Checks.eq_unchecked (h : Checks x y) (hx : x ≠ .error .overflow) : x = unchecked y :=
  h.resolve_left hx

end
end SelRej.CInt

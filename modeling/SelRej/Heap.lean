import Mathlib.Data.Set.Insert
import Mathlib.Logic.Equiv.Basic
import SelRej.Emit

/-!
# Heaps and the ownership of their blocks

A heap maps addresses to blocks. An address is given out once, so a pointer to
a released block stays dangling. A heap is divided among owners when every owner
holds its own part of it and no block belongs to two; the live blocks without an
owner are the rest. One rule for each thing a program does with the blocks of an
owner tells how the division changes: they are acquired, released, overwritten,
passed on to another owner, or dropped, which is how the rest grows.

`Refines` compares a computation that works through pointers with one that
works on values: both stop for the same reason or end in related results.
-/
namespace SelRej

/-- The blocks by address. Addresses from `fresh` on have not been given out. -/
structure Heap (β : Type) where
  block : ℕ → Option β
  fresh : ℕ
  unused : ∀ p, fresh ≤ p → block p = none

/-- Why a program over a heap stops: for a reason of its own, or because it
uses a block that is not there. -/
inductive HeapFault (ε : Type) where
  | stop (e : ε)
  | dangling
  deriving DecidableEq

namespace Heap
variable {β ε : Type}

def live (h : Heap β) : Set ℕ := {p | (h.block p).isSome}

def empty : Heap β := ⟨fun _ => none, 0, fun _ _ => rfl⟩

theorem lt_fresh {h : Heap β} {p : ℕ} (hp : (h.block p).isSome) : p < h.fresh := by
  by_contra hle
  rw [h.unused p (by omega)] at hp
  cases hp

def malloc (h : Heap β) (b : β) : ℕ × Heap β :=
  (h.fresh, {
    block := Function.update h.block h.fresh (some b)
    fresh := h.fresh + 1
    unused := fun p hp => by
      rw [Function.update_of_ne (by omega)]
      exact h.unused p (by omega) })

def load (h : Heap β) (p : ℕ) : Except (HeapFault ε) β :=
  match h.block p with
  | some b => .ok b
  | none => .error .dangling

/-- The heap with another content at a live address. -/
def replace (h : Heap β) (p : ℕ) (b : Option β) (hp : (h.block p).isSome) : Heap β where
  block := Function.update h.block p b
  fresh := h.fresh
  unused := fun q hq => by
    have hlt := lt_fresh hp
    rw [Function.update_of_ne (by omega)]
    exact h.unused q hq

def write (h : Heap β) (p : ℕ) (b : β) : Except (HeapFault ε) (Heap β) :=
  if hp : (h.block p).isSome then .ok (h.replace p (some b) hp) else .error .dangling

def free (h : Heap β) (p : ℕ) : Except (HeapFault ε) (Heap β) :=
  if hp : (h.block p).isSome then .ok (h.replace p none hp) else .error .dangling

variable {h h' : Heap β} {p : ℕ} {b : β}

@[simp] theorem malloc_fst : (h.malloc b).1 = h.fresh := rfl

@[simp] theorem malloc_block :
    (h.malloc b).2.block = Function.update h.block h.fresh (some b) := rfl

theorem load_eq (hp : h.block p = some b) : (h.load p : Except (HeapFault ε) β) = .ok b := by
  simp only [load, hp]

theorem write_eq (ε : Type) (hp : h.block p = some b) (b' : β) :
    ∃ h', (h.write p b' : Except (HeapFault ε) (Heap β)) = .ok h' ∧
      h'.block = Function.update h.block p (some b') := by
  have hlive : (h.block p).isSome := by simp [hp]
  exact ⟨h.replace p (some b') hlive, dif_pos hlive, rfl⟩

theorem free_eq (ε : Type) (hp : h.block p = some b) :
    ∃ h', (h.free p : Except (HeapFault ε) (Heap β)) = .ok h' ∧
      h'.block = Function.update h.block p none := by
  have hlive : (h.block p).isSome := by simp [hp]
  exact ⟨h.replace p none hlive, dif_pos hlive, rfl⟩

variable {ι : Type} {own : ι → ℕ → Option β} {rest : Set ℕ} {i j : ι} {part : ℕ → Option β}

/-- Every owner has its part, no block is in two parts, and the rest is what is
there and in no part. -/
structure Divided (own : ι → ℕ → Option β) (rest : Set ℕ) (h : Heap β) : Prop where
  holds : ∀ i p b, own i p = some b → h.block p = some b
  disjoint : ∀ i j p, (own i p).isSome → (own j p).isSome → i = j
  mem_rest : ∀ p, p ∈ rest ↔ p ∈ h.live ∧ ∀ i, own i p = none

def dom (part : ℕ → Option β) : Set ℕ := {p | (part p).isSome}

theorem divided_none (h : Heap β) : Divided (fun _ : ι => fun _ => none) h.live h where
  holds := by simp
  disjoint := by simp
  mem_rest := by simp

namespace Divided

theorem live_eq (hd : Divided own rest h) : h.live = rest ∪ {p | ∃ i, (own i p).isSome} := by
  ext p
  constructor
  · intro hp
    by_cases hown : ∃ i, (own i p).isSome
    · exact .inr hown
    · refine .inl ((hd.mem_rest p).mpr ⟨hp, fun i => ?_⟩)
      simpa using fun hi => hown ⟨i, hi⟩
  · rintro (hp | ⟨i, hi⟩)
    · exact ((hd.mem_rest p).mp hp).1
    · obtain ⟨b, hb⟩ := Option.isSome_iff_exists.mp hi
      simp [live, hd.holds i p b hb]

theorem not_mem_rest (hd : Divided own rest h) (hi : own i p = some b) : p ∉ rest := by
  intro hp
  have hnone := ((hd.mem_rest p).mp hp).2 i
  rw [hi] at hnone
  cases hnone

theorem eq_none (hd : Divided own rest h) (hi : (own i p).isSome) (hij : j ≠ i) :
    own j p = none := by
  by_contra hne
  exact hij (hd.disjoint j i p (Option.isSome_iff_ne_none.mpr hne) hi)

theorem permute (hd : Divided own rest h) (e : Equiv.Perm ι) :
    Divided (fun k => own (e k)) rest h where
  holds k := hd.holds (e k)
  disjoint k l p hk hl := e.injective (hd.disjoint (e k) (e l) p hk hl)
  mem_rest p := by
    rw [hd.mem_rest]
    refine and_congr_right fun _ => ⟨fun hnone k => hnone (e k), fun hnone k => ?_⟩
    rw [← e.apply_symm_apply k]
    exact hnone (e.symm k)

/-- The rest already contains the blocks of an owner only if it has none. -/
theorem union_dom_eq_iff (hd : Divided own rest h) (i : ι) :
    rest ∪ dom (own i) = rest ↔ own i = fun _ => none := by
  constructor
  · intro heq
    funext p
    by_contra hne
    obtain ⟨b, hb⟩ := Option.ne_none_iff_exists'.mp hne
    have hp : p ∈ rest := by
      rw [← heq]
      exact .inr (by simp [dom, hb])
    exact hd.not_mem_rest hb hp
  · intro hnone
    simp [dom, hnone]

variable [DecidableEq ι]

/-- An owner exchanges its blocks for others, which it had before or which are
new, and nothing else changes. -/
theorem exchange (hd : Divided own rest h)
    (hnew : ∀ p, own i p = none → (part p).isSome → h.block p = none)
    (hpart : ∀ p, (part p).isSome → h'.block p = part p)
    (hfreed : ∀ p, (own i p).isSome → part p = none → h'.block p = none)
    (hframe : ∀ p, own i p = none → part p = none → h'.block p = h.block p) :
    Divided (Function.update own i part) rest h' := by
  have hother : ∀ j p b, j ≠ i → own j p = some b → own i p = none ∧ part p = none := by
    intro j p b hji hj
    have hi : own i p = none := hd.eq_none (by simp [hj]) hji.symm
    refine ⟨hi, ?_⟩
    by_contra hne
    have hfree := hnew p hi (Option.isSome_iff_ne_none.mpr hne)
    rw [hd.holds j p b hj] at hfree
    cases hfree
  constructor
  · intro j p b hj
    by_cases hji : j = i
    · subst hji
      rw [Function.update_self] at hj
      rw [hpart p (by simp [hj]), hj]
    · rw [Function.update_of_ne hji] at hj
      obtain ⟨hi, hp⟩ := hother j p b hji hj
      rw [hframe p hi hp]
      exact hd.holds j p b hj
  · intro j k p hj hk
    by_cases hji : j = i <;> by_cases hki : k = i
    · rw [hji, hki]
    · subst hji
      rw [Function.update_self] at hj
      rw [Function.update_of_ne hki] at hk
      obtain ⟨b, hb⟩ := Option.isSome_iff_exists.mp hk
      rw [(hother k p b hki hb).2] at hj
      cases hj
    · subst hki
      rw [Function.update_self] at hk
      rw [Function.update_of_ne hji] at hj
      obtain ⟨b, hb⟩ := Option.isSome_iff_exists.mp hj
      rw [(hother j p b hji hb).2] at hk
      cases hk
    · rw [Function.update_of_ne hji] at hj
      rw [Function.update_of_ne hki] at hk
      exact hd.disjoint j k p hj hk
  · intro p
    rw [hd.mem_rest]
    constructor
    · rintro ⟨hlive, hnone⟩
      have hp : part p = none := by
        by_contra hne
        have hfree := hnew p (hnone i) (Option.isSome_iff_ne_none.mpr hne)
        simp [live, hfree] at hlive
      constructor
      · rw [live, Set.mem_ofPred_eq, hframe p (hnone i) hp]
        exact hlive
      · intro j
        by_cases hji : j = i
        · rw [hji, Function.update_self, hp]
        · rw [Function.update_of_ne hji, hnone j]
    · rintro ⟨hlive, hnone⟩
      have hp : part p = none := by simpa using hnone i
      have hi : own i p = none := by
        by_contra hne
        have hfree := hfreed p (Option.isSome_iff_ne_none.mpr hne) hp
        simp [live, hfree] at hlive
      constructor
      · rw [live, Set.mem_ofPred_eq, ← hframe p hi hp]
        exact hlive
      · intro j
        by_cases hji : j = i
        · rw [hji, hi]
        · simpa [Function.update_of_ne hji] using hnone j

/-- An owner without blocks receives newly allocated ones. -/
theorem acquire (hd : Divided own rest h) (hi : own i = fun _ => none)
    (hnew : ∀ p, (part p).isSome → h.block p = none)
    (hblock : ∀ p, h'.block p = (part p).or (h.block p)) :
    Divided (Function.update own i part) rest h' := by
  apply hd.exchange
  · intro p _ hp
    exact hnew p hp
  · intro p hp
    rw [hblock, Option.or_of_isSome hp]
  · intro p hp
    simp [hi] at hp
  · intro p _ hp
    rw [hblock, hp, Option.none_or]

/-- An owner releases its blocks. -/
theorem release (hd : Divided own rest h)
    (hblock : ∀ p, h'.block p = if (own i p).isSome then none else h.block p) :
    Divided (Function.update own i fun _ => none) rest h' := by
  apply hd.exchange
  · intro p _ hp
    cases hp
  · intro p hp
    cases hp
  · intro p hp _
    rw [hblock, if_pos hp]
  · intro p hp _
    rw [hblock, if_neg (by simp [hp])]

theorem overwrite (hd : Divided own rest h) (hdom : ∀ p, (part p).isSome ↔ (own i p).isSome)
    (hblock : ∀ p, h'.block p = (part p).or (h.block p)) :
    Divided (Function.update own i part) rest h' := by
  apply hd.exchange
  · intro p hp hpart
    rw [hdom, hp] at hpart
    cases hpart
  · intro p hp
    rw [hblock, Option.or_of_isSome hp]
  · intro p hp hpart
    rw [← hdom, hpart] at hp
    cases hp
  · intro p _ hp
    rw [hblock, hp, Option.none_or]

/-- An owner loses its blocks without releasing them. -/
theorem drop (hd : Divided own rest h) (i : ι) :
    Divided (Function.update own i fun _ => none) (rest ∪ dom (own i)) h := by
  have hle : ∀ j p b, Function.update own i (fun _ => none) j p = some b → own j p = some b := by
    intro j p b hj
    by_cases hji : j = i
    · subst hji
      rw [Function.update_self] at hj
      cases hj
    · rwa [Function.update_of_ne hji] at hj
  constructor
  · intro j p b hj
    exact hd.holds j p b (hle j p b hj)
  · intro j k p hj hk
    obtain ⟨b, hb⟩ := Option.isSome_iff_exists.mp hj
    obtain ⟨c, hc⟩ := Option.isSome_iff_exists.mp hk
    exact hd.disjoint j k p (by simp [hle j p b hb]) (by simp [hle k p c hc])
  · intro p
    constructor
    · rintro (hp | hp)
      · obtain ⟨hlive, hnone⟩ := (hd.mem_rest p).mp hp
        refine ⟨hlive, fun j => ?_⟩
        by_cases hji : j = i
        · rw [hji, Function.update_self]
        · rw [Function.update_of_ne hji, hnone j]
      · obtain ⟨b, hb⟩ := Option.isSome_iff_exists.mp hp
        refine ⟨by simp [live, hd.holds i p b hb], fun j => ?_⟩
        by_cases hji : j = i
        · rw [hji, Function.update_self]
        · rw [Function.update_of_ne hji]
          exact hd.eq_none hp hji
    · rintro ⟨hlive, hnone⟩
      by_cases hi : (own i p).isSome
      · exact .inr hi
      · refine .inl ((hd.mem_rest p).mpr ⟨hlive, fun j => ?_⟩)
        by_cases hji : j = i
        · rw [hji]
          simpa using hi
        · simpa [Function.update_of_ne hji] using hnone j

theorem pass (hd : Divided own rest h) (hij : j ≠ i) (hj : own j = fun _ => none) :
    Divided (Function.update (Function.update own i fun _ => none) j (own i)) rest h := by
  convert hd.permute (Equiv.swap i j) using 1
  funext k
  by_cases hkj : k = j
  · rw [hkj, Function.update_self, Equiv.swap_apply_right]
  · by_cases hki : k = i
    · rw [hki, Function.update_of_ne hij.symm, Function.update_self, Equiv.swap_apply_left, hj]
    · rw [Function.update_of_ne hkj, Function.update_of_ne hki, Equiv.swap_apply_of_ne_of_ne hki hkj]

end Divided
end Heap

/-- The computation through pointers stops when the one on values does, for
the same reason, and otherwise ends in a result related by `R`. -/
inductive Refines {ε α β : Type} (R : α → β → Prop) : Except (HeapFault ε) α → Except ε β → Prop
  | ok {a : α} {b : β} (h : R a b) : Refines R (.ok a) (.ok b)
  | stop {e : ε} : Refines R (.error (.stop e)) (.error e)

namespace Refines
variable {ε α β γ δ : Type} {x : Except (HeapFault ε) α} {y : Except ε β} {R : α → β → Prop}
  {f : α → Except (HeapFault ε) γ} {g : β → Except ε δ} {S : γ → δ → Prop}

theorem bind (hx : Refines R x y) (hf : ∀ a b, R a b → Refines S (f a) (g b)) :
    Refines S (x >>= f) (y >>= g) := by
  cases hx with
  | ok h => exact hf _ _ h
  | stop => exact stop

theorem of_ok {a : α} (hx : Refines R (.ok a) y) : ∃ b, y = .ok b ∧ R a b := by
  cases hx with
  | ok h => exact ⟨_, rfl, h⟩

theorem exists_ok {b : β} (hx : Refines R x (.ok b)) : ∃ a, x = .ok a ∧ R a b := by
  cases hx with
  | ok h => exact ⟨_, rfl, h⟩

theorem bind_left {S : γ → β → Prop} (hx : Refines R x y)
    (hf : ∀ a b, R a b → ∃ c, f a = .ok c ∧ S c b) : Refines S (x >>= f) y := by
  cases hx with
  | ok h =>
      obtain ⟨c, hc, hS⟩ := hf _ _ h
      rw [ok_bind, hc]
      exact ok hS
  | stop => exact stop

theorem mono {R' : α → β → Prop} (hx : Refines R x y) (h : ∀ a b, R a b → R' a b) :
    Refines R' x y := by
  cases hx with
  | ok hab => exact ok (h _ _ hab)
  | stop => exact stop

/-- The result is what the computation on values yields. -/
theorem and_eq (hx : Refines R x y) : Refines (fun a b => R a b ∧ y = .ok b) x y := by
  cases hx with
  | ok hab => exact ok ⟨hab, rfl⟩
  | stop => exact stop

theorem ite {c c' : Prop} [Decidable c] [Decidable c'] {x' : Except (HeapFault ε) α}
    {y' : Except ε β} (hc : c ↔ c') (hpos : c' → Refines R x y)
    (hneg : ¬c' → Refines R x' y') :
    Refines R (if c then x else x') (if c' then y else y') := by
  by_cases h : c'
  · rw [if_pos h, if_pos (hc.mpr h)]
    exact hpos h
  · rw [if_neg h, if_neg (hc.not.mpr h)]
    exact hneg h

end Refines

/-- The calls one after the other, up to the first that stops the program. -/
def performAll {ℓ σ ε α : Type} (perform : ℓ → σ → Except ε (α × σ)) :
    List ℓ → σ → Except ε (List α × σ)
  | [], s => pure ([], s)
  | call :: calls, s => do
      let (answer, s) ← perform call s
      let (answers, s) ← performAll perform calls s
      return (answer :: answers, s)

end SelRej

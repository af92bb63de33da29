import Mathlib.Logic.Function.Basic
import Mathlib.Data.Nat.Notation
import Mathlib.Tactic.SplitIfs

/-!
# The reorder buffer of a selective-reject receiver

The receiver has delivered the items numbered below `next`. Items above it
that arrived early are held, and `seen` is one more than the highest number
that has arrived, so that `next = seen` means that nothing is held. An arrival
is answered as follows: an old item by an acknowledgement, and a rejection if
items are held; the item in turn by delivering it and every item held right
above it, each delivery followed by its acknowledgement; an item above all
others by rejecting every number skipped; any other item by nothing.

`InTurn` is the safety property of the outputs: deliveries are consecutive,
and an acknowledgement never runs ahead of them.
-/
namespace SelRej

structure ReorderBuffer (α : Type) where
  next : ℕ
  seen : ℕ
  held : ℕ → Option α

namespace ReorderBuffer
variable {α : Type}

inductive Output (α : Type) where
  | deliver (k : ℕ) (a : α)
  | ack (k : ℕ)
  | nack (k : ℕ)

def empty : ReorderBuffer α := ⟨0, 0, fun _ => none⟩

def hold (b : ReorderBuffer α) (k : ℕ) (a : α) : ReorderBuffer α :=
  ⟨b.next, max b.seen (k + 1), Function.update b.held k (some a)⟩

/-- The item in turn leaves the buffer. -/
def release (b : ReorderBuffer α) : ReorderBuffer α :=
  ⟨b.next + 1, b.seen, Function.update b.held b.next none⟩

/-- Deliver the item in turn while it is held; at most `fuel` times. -/
def drain : ℕ → ReorderBuffer α → List (Output α) × ReorderBuffer α
  | 0, b => ([], b)
  | fuel + 1, b =>
      match b.held b.next with
      | none => ([], b)
      | some a =>
          let r := drain fuel b.release
          (.deliver b.next a :: .ack (b.next + 1) :: r.1, r.2)

/-- The numbers `from, ..., to - 1` are rejected in increasing order. -/
def nacks (start stop : ℕ) : List (Output α) :=
  (List.range' start (stop - start)).map .nack

def arrive (b : ReorderBuffer α) (k : ℕ) (a : α) : List (Output α) × ReorderBuffer α :=
  if k < b.next then
    (.ack b.next :: (if b.next = b.seen then [] else [.nack b.next]), b)
  else if k = b.next then
    drain ((b.hold k a).seen - b.next) (b.hold k a)
  else
    (nacks b.seen k, b.hold k a)

theorem arrive_of_lt {b : ReorderBuffer α} {k : ℕ} {a : α} (h : k < b.next) :
    b.arrive k a = (.ack b.next :: (if b.next = b.seen then [] else [.nack b.next]), b) :=
  if_pos h

theorem arrive_of_eq {b : ReorderBuffer α} {k : ℕ} {a : α} (h : k = b.next) :
    b.arrive k a = drain ((b.hold k a).seen - b.next) (b.hold k a) := by
  unfold arrive
  rw [if_neg (by omega), if_pos h]

theorem arrive_of_gt {b : ReorderBuffer α} {k : ℕ} {a : α} (h : b.next < k) :
    b.arrive k a = (nacks b.seen k, b.hold k a) := by
  unfold arrive
  rw [if_neg (by omega), if_neg (by omega)]

/-- Held numbers lie below `seen`, whose predecessor is one of them. -/
structure Bounded (b : ReorderBuffer α) : Prop where
  next_le : b.next ≤ b.seen
  mem : ∀ k a, b.held k = some a → b.next ≤ k ∧ k < b.seen
  last : b.next < b.seen → (b.held (b.seen - 1)).isSome

/-- Moreover, the item in turn is not waiting. -/
structure WellFormed (b : ReorderBuffer α) : Prop extends Bounded b where
  missing : b.held b.next = none

theorem empty_wellFormed : (empty : ReorderBuffer α).WellFormed where
  next_le := Nat.le_refl 0
  mem := by intro k a h; cases h
  last := by intro h; exact absurd h (Nat.lt_irrefl 0)
  missing := rfl

theorem WellFormed.idle_iff {b : ReorderBuffer α} (h : b.WellFormed) :
    b.next = b.seen ↔ ∀ k, b.held k = none := by
  constructor
  · intro he k
    cases hk : b.held k with
    | none => rfl
    | some a =>
        have := h.mem k a hk
        omega
  · intro hnone
    by_contra hne
    have hlast := h.last (by have := h.next_le; omega)
    rw [hnone] at hlast
    cases hlast

theorem Bounded.hold {b : ReorderBuffer α} (h : b.Bounded) {k : ℕ} (hk : b.next ≤ k)
    (a : α) : (b.hold k a).Bounded where
  next_le := by
    have := h.next_le
    simp only [ReorderBuffer.hold]
    omega
  mem := by
    intro j c hj
    simp only [ReorderBuffer.hold] at hj ⊢
    by_cases hjk : j = k
    · subst hjk
      omega
    · rw [Function.update_of_ne hjk] at hj
      have := h.mem j c hj
      omega
  last := by
    intro _
    simp only [ReorderBuffer.hold]
    by_cases hseen : b.seen ≤ k + 1
    · rw [Nat.max_eq_right hseen, Nat.add_sub_cancel, Function.update_self]
      rfl
    · rw [Nat.max_eq_left (by omega), Function.update_of_ne (by omega)]
      exact h.last (by omega)

/-- What is held lies between `next` and `seen`; the last number seen may be
one that is only skipped. -/
structure Enclosed (b : ReorderBuffer α) : Prop where
  next_le : b.next ≤ b.seen
  mem : ∀ k a, b.held k = some a → b.next ≤ k ∧ k < b.seen

theorem Bounded.enclosed {b : ReorderBuffer α} (h : b.Bounded) : b.Enclosed := ⟨h.next_le, h.mem⟩

theorem Enclosed.release {b : ReorderBuffer α} (h : b.Enclosed)
    (hheld : (b.held b.next).isSome) : b.release.Enclosed where
  next_le := by
    obtain ⟨a, ha⟩ := Option.isSome_iff_exists.mp hheld
    exact (h.mem _ a ha).2
  mem := by
    intro j c hj
    simp only [ReorderBuffer.release] at hj ⊢
    by_cases hjn : j = b.next
    · subst hjn
      rw [Function.update_self] at hj
      cases hj
    · rw [Function.update_of_ne hjn] at hj
      have := h.mem j c hj
      omega

theorem Bounded.release {b : ReorderBuffer α} (h : b.Bounded)
    (hheld : (b.held b.next).isSome) : b.release.Bounded where
  next_le := (h.enclosed.release hheld).next_le
  mem := (h.enclosed.release hheld).mem
  last := by
    intro hlt
    simp only [ReorderBuffer.release] at hlt ⊢
    rw [Function.update_of_ne (by omega)]
    exact h.last (by omega)

/-- What every release preserves, draining preserves. -/
theorem drain_induct {P : ReorderBuffer α → Prop}
    (hrelease : ∀ b, P b → (b.held b.next).isSome → P b.release) (fuel : ℕ)
    {b : ReorderBuffer α} (h : P b) : P (drain fuel b).2 := by
  induction fuel generalizing b with
  | zero => exact h
  | succ fuel ih =>
      simp only [drain]
      split
      · exact h
      · rename_i a hsome
        exact ih (hrelease b h (by rw [hsome]; rfl))

theorem drain_bounded (fuel : ℕ) {b : ReorderBuffer α} (h : b.Bounded) :
    (drain fuel b).2.Bounded :=
  drain_induct (fun _ hb hheld => hb.release hheld) fuel h

theorem drain_enclosed (fuel : ℕ) {b : ReorderBuffer α} (h : b.Enclosed) :
    (drain fuel b).2.Enclosed :=
  drain_induct (fun _ hb hheld => hb.release hheld) fuel h

/-- With enough fuel the loop stops at a number that is not held. -/
theorem drain_stops {fuel : ℕ} {b : ReorderBuffer α} (h : b.Enclosed)
    (hfuel : b.seen - b.next ≤ fuel) : (drain fuel b).2.held (drain fuel b).2.next = none := by
  induction fuel generalizing b with
  | zero =>
      cases hn : (drain 0 b).2.held (drain 0 b).2.next with
      | none => rfl
      | some a =>
          have := h.mem _ a hn
          omega
  | succ fuel ih =>
      simp only [drain]
      split
      · rename_i hnone
        exact hnone
      · rename_i a hsome
        apply ih (h.release (by rw [hsome]; rfl))
        simp only [ReorderBuffer.release]
        omega

theorem drain_wellFormed {fuel : ℕ} {b : ReorderBuffer α} (h : b.Bounded)
    (hfuel : b.seen - b.next ≤ fuel) : (drain fuel b).2.WellFormed :=
  ⟨drain_bounded fuel h, drain_stops h.enclosed hfuel⟩

theorem arrive_wellFormed {b : ReorderBuffer α} (h : b.WellFormed) (k : ℕ) (a : α) :
    (b.arrive k a).2.WellFormed := by
  rcases Nat.lt_trichotomy k b.next with hlt | heq | hgt
  · rw [arrive_of_lt hlt]
    exact h
  · rw [arrive_of_eq heq]
    exact drain_wellFormed (h.toBounded.hold (by omega) a) (Nat.le_refl _)
  · rw [arrive_of_gt hgt]
    refine ⟨h.toBounded.hold (by omega) a, ?_⟩
    simp only [ReorderBuffer.hold]
    rw [Function.update_of_ne (by omega)]
    exact h.missing

theorem drain_of_held {fuel : ℕ} {b : ReorderBuffer α} {a : α} (h : b.held b.next = some a) :
    drain (fuel + 1) b = (.deliver b.next a :: .ack (b.next + 1) :: (drain fuel b.release).1,
      (drain fuel b.release).2) := by
  simp only [drain, h]

theorem drain_of_missing {fuel : ℕ} {b : ReorderBuffer α} (h : b.held b.next = none) :
    drain fuel b = ([], b) := by
  cases fuel with
  | zero => rfl
  | succ fuel => simp only [drain, h]

theorem arrive_of_idle {b : ReorderBuffer α} (h : b.WellFormed) (hidle : b.next = b.seen)
    (a : α) : b.arrive b.next a =
      ([.deliver b.next a, .ack (b.next + 1)], ⟨b.next + 1, b.next + 1, b.held⟩) := by
  have hseen : (b.hold b.next a).seen = b.next + 1 := by
    simp only [hold]
    omega
  have hheld : (b.hold b.next a).held (b.hold b.next a).next = some a := Function.update_self ..
  have hrelease : (b.hold b.next a).release = ⟨b.next + 1, b.next + 1, b.held⟩ := by
    have hvacant : Function.update b.held b.next none = b.held := by
      rw [← h.missing, Function.update_eq_self]
    simp only [release, hseen]
    simp only [hold, Function.update_idem, hvacant]
  rw [arrive_of_eq rfl, hseen, Nat.add_sub_cancel_left, drain_of_held hheld, hrelease]
  rfl

/-- With `n` items delivered before: deliveries continue from `n` one by one,
and nothing beyond the delivered items is acknowledged. -/
def InTurn : ℕ → List (Output α) → Prop
  | _, [] => True
  | n, .deliver k _ :: out => k = n ∧ InTurn (n + 1) out
  | n, .ack k :: out => k ≤ n ∧ InTurn n out
  | n, .nack _ :: out => InTurn n out

/-- The items delivered, with their numbers. -/
def deliveries : List (Output α) → List (ℕ × α)
  | [] => []
  | .deliver k a :: out => (k, a) :: deliveries out
  | .ack _ :: out => deliveries out
  | .nack _ :: out => deliveries out

@[simp] theorem deliveries_append (out out' : List (Output α)) :
    deliveries (out ++ out') = deliveries out ++ deliveries out' := by
  induction out with
  | nil => rfl
  | cons o out ih => cases o <;> simp only [List.cons_append, deliveries, ih]

theorem InTurn.append {n : ℕ} {out out' : List (Output α)} (h : InTurn n out)
    (h' : InTurn (n + (deliveries out).length) out') : InTurn n (out ++ out') := by
  induction out generalizing n with
  | nil => exact h'
  | cons o out ih =>
      cases o with
      | deliver k a =>
          refine ⟨h.1, ih h.2 ?_⟩
          simp only [deliveries, List.length_cons] at h'
          rwa [show n + ((deliveries out).length + 1) = n + 1 + (deliveries out).length by omega]
            at h'
      | ack k => exact ⟨h.1, ih h.2 h'⟩
      | nack k => exact ih (n := n) h h'

/-- Outputs in turn deliver consecutive numbers. -/
theorem InTurn.numbers {n : ℕ} {out : List (Output α)} (h : InTurn n out) :
    (deliveries out).map Prod.fst = List.range' n (deliveries out).length := by
  induction out generalizing n with
  | nil => rfl
  | cons o out ih =>
      cases o with
      | deliver k a =>
          simp only [deliveries, List.map_cons, List.length_cons, List.range'_succ, ih h.2, h.1]
      | ack k => exact ih h.2
      | nack k => exact ih (n := n) h

/-- No acknowledgement exceeds the number of deliveries made in the end. -/
theorem InTurn.ack_le {n k : ℕ} {out : List (Output α)} (h : InTurn n out)
    (hk : Output.ack k ∈ out) : k ≤ n + (deliveries out).length := by
  induction out generalizing n with
  | nil => cases hk
  | cons o out ih =>
      cases o with
      | deliver j a =>
          have := ih h.2 (by simpa using hk)
          simp only [deliveries, List.length_cons]
          omega
      | ack j =>
          rcases List.mem_cons.mp hk with he | hk
          · cases he
            exact Nat.le_trans h.1 (Nat.le_add_right _ _)
          · exact ih h.2 hk
      | nack j => exact ih (n := n) h (by simpa using hk)

theorem nacks_inTurn (n start stop : ℕ) : InTurn n (nacks start stop : List (Output α)) := by
  unfold nacks
  induction List.range' start (stop - start) with
  | nil => trivial
  | cons j js ih => exact ih

@[simp] theorem deliveries_nacks (start stop : ℕ) :
    deliveries (nacks start stop : List (Output α)) = [] := by
  unfold nacks
  induction List.range' start (stop - start) with
  | nil => rfl
  | cons j js ih => exact ih

theorem drain_inTurn (fuel : ℕ) (b : ReorderBuffer α) :
    InTurn b.next (drain fuel b).1 ∧
      (drain fuel b).2.next = b.next + (deliveries (drain fuel b).1).length := by
  induction fuel generalizing b with
  | zero => exact ⟨trivial, rfl⟩
  | succ fuel ih =>
      cases hb : b.held b.next with
      | none =>
          rw [drain_of_missing hb]
          exact ⟨trivial, rfl⟩
      | some a =>
          rw [drain_of_held hb]
          obtain ⟨hturn, hnext⟩ := ih b.release
          simp only [ReorderBuffer.release] at hturn hnext
          refine ⟨⟨rfl, Nat.le_refl _, hturn⟩, ?_⟩
          simp only [deliveries, List.length_cons]
          simp only [ReorderBuffer.release]
          omega

/-- An arrival answers in turn, and `next` counts what was delivered. -/
theorem arrive_inTurn (b : ReorderBuffer α) (k : ℕ) (a : α) :
    InTurn b.next (b.arrive k a).1 ∧
      (b.arrive k a).2.next = b.next + (deliveries (b.arrive k a).1).length := by
  rcases Nat.lt_trichotomy k b.next with hlt | heq | hgt
  · rw [arrive_of_lt hlt]
    split_ifs
    · exact ⟨⟨Nat.le_refl _, trivial⟩, rfl⟩
    · exact ⟨⟨Nat.le_refl _, trivial⟩, rfl⟩
  · rw [arrive_of_eq heq]
    exact drain_inTurn _ (b.hold k a)
  · rw [arrive_of_gt hgt]
    refine ⟨nacks_inTurn _ _ _, ?_⟩
    rw [deliveries_nacks]
    rfl

/-- An arrival acknowledges nothing beyond what has been delivered in the end. -/
theorem arrive_ack_le {b : ReorderBuffer α} {k j : ℕ} {a : α}
    (h : Output.ack j ∈ (b.arrive k a).1) : j ≤ (b.arrive k a).2.next := by
  obtain ⟨hturn, hnext⟩ := arrive_inTurn b k a
  rw [hnext]
  exact hturn.ack_le h

theorem nack_not_mem_drain (fuel : ℕ) (b : ReorderBuffer α) (j : ℕ) :
    Output.nack j ∉ (drain fuel b).1 := by
  induction fuel generalizing b with
  | zero => exact List.not_mem_nil
  | succ fuel ih =>
      cases hb : b.held b.next with
      | none =>
          rw [drain_of_missing hb]
          exact List.not_mem_nil
      | some a =>
          rw [drain_of_held hb]
          simp only [List.mem_cons, reduceCtorEq, false_or]
          exact ih b.release

/-- Only numbers below the highest one that has arrived are rejected. -/
theorem arrive_nack_lt {b : ReorderBuffer α} (h : b.next ≤ b.seen) {k j : ℕ} {a : α}
    (hj : Output.nack j ∈ (b.arrive k a).1) : j < (b.arrive k a).2.seen := by
  rcases Nat.lt_trichotomy k b.next with hlt | heq | hgt
  · rw [arrive_of_lt hlt] at hj ⊢
    split_ifs at hj with hidle
    · simp at hj
    · simp only [List.mem_cons, reduceCtorEq, false_or, Output.nack.injEq, List.not_mem_nil,
        or_false] at hj
      subst hj
      exact Nat.lt_of_le_of_ne h hidle
  · rw [arrive_of_eq heq] at hj
    exact absurd hj (nack_not_mem_drain _ _ j)
  · rw [arrive_of_gt hgt] at hj ⊢
    obtain ⟨i, hi, heq⟩ := List.mem_map.mp hj
    cases heq
    rw [List.mem_range'_1] at hi
    simp only [hold]
    omega

/-- Every delivery is followed by the acknowledgement that covers it. -/
def Acked : List (Output α) → Prop
  | [] => True
  | .deliver k _ :: out => (∃ rest, out = .ack (k + 1) :: rest) ∧ Acked out
  | .ack _ :: out => Acked out
  | .nack _ :: out => Acked out

theorem Acked.append {out out' : List (Output α)} (h : Acked out) (h' : Acked out') :
    Acked (out ++ out') := by
  induction out with
  | nil => exact h'
  | cons o out ih =>
      cases o with
      | deliver k a =>
          obtain ⟨⟨rest, rfl⟩, hrest⟩ := h
          exact ⟨⟨rest ++ out', rfl⟩, ih hrest⟩
      | ack k => exact ih h
      | nack k => exact ih h

theorem acked_nacks (start stop : ℕ) : Acked (nacks start stop : List (Output α)) := by
  unfold nacks
  induction List.range' start (stop - start) with
  | nil => trivial
  | cons j js ih => exact ih

theorem drain_acked (fuel : ℕ) (b : ReorderBuffer α) : Acked (drain fuel b).1 := by
  induction fuel generalizing b with
  | zero => trivial
  | succ fuel ih =>
      cases hb : b.held b.next with
      | none =>
          rw [drain_of_missing hb]
          trivial
      | some a =>
          rw [drain_of_held hb]
          exact ⟨⟨_, rfl⟩, ih b.release⟩

theorem arrive_acked (b : ReorderBuffer α) (k : ℕ) (a : α) : Acked (b.arrive k a).1 := by
  rcases Nat.lt_trichotomy k b.next with hlt | heq | hgt
  · rw [arrive_of_lt hlt]
    split_ifs <;> trivial
  · rw [arrive_of_eq heq]
    exact drain_acked _ _
  · rw [arrive_of_gt hgt]
    exact acked_nacks _ _

theorem drain_items {P : ℕ → α → Prop} {fuel : ℕ} {b : ReorderBuffer α}
    (h : ∀ k a, b.held k = some a → P k a) :
    (∀ p ∈ deliveries (drain fuel b).1, P p.1 p.2) ∧
      ∀ k a, (drain fuel b).2.held k = some a → P k a := by
  induction fuel generalizing b with
  | zero => exact ⟨by simp [drain, deliveries], h⟩
  | succ fuel ih =>
      cases hb : b.held b.next with
      | none =>
          rw [drain_of_missing hb]
          exact ⟨by simp [deliveries], h⟩
      | some a =>
          rw [drain_of_held hb]
          have hrelease : ∀ k c, b.release.held k = some c → P k c := by
            intro k c hk
            simp only [ReorderBuffer.release] at hk
            by_cases hkn : k = b.next
            · subst hkn
              rw [Function.update_self] at hk
              cases hk
            · rw [Function.update_of_ne hkn] at hk
              exact h k c hk
          obtain ⟨hout, hheld⟩ := ih hrelease
          refine ⟨?_, hheld⟩
          intro p hp
          simp only [deliveries, List.mem_cons] at hp
          rcases hp with rfl | hp
          · exact h _ _ hb
          · exact hout p hp

/-- Only items that are held are delivered. -/
theorem drain_delivers (fuel : ℕ) (b : ReorderBuffer α) :
    ∀ p ∈ deliveries (drain fuel b).1, b.held p.1 = some p.2 :=
  (drain_items (P := fun k a => b.held k = some a) fun _ _ h => h).1

theorem drain_held {fuel : ℕ} {b : ReorderBuffer α} {k : ℕ} (hk : (drain fuel b).2.next ≤ k) :
    (drain fuel b).2.held k = b.held k := by
  induction fuel generalizing b with
  | zero => rfl
  | succ fuel ih =>
      cases hb : b.held b.next with
      | none => rw [drain_of_missing hb]
      | some a =>
          rw [drain_of_held hb] at hk ⊢
          dsimp only at hk ⊢
          have hle : b.next + 1 ≤ (drain fuel b.release).2.next := by
            rw [(drain_inTurn fuel b.release).2]
            exact Nat.le_add_right _ _
          rw [ih hk]
          exact Function.update_of_ne (by omega) ..

/-- A property of numbered items that holds of the held ones and of the one
that arrives holds of everything delivered and of everything held after. -/
theorem arrive_items {P : ℕ → α → Prop} {b : ReorderBuffer α} {k : ℕ} {a : α}
    (h : ∀ k a, b.held k = some a → P k a) (hk : P k a) :
    (∀ p ∈ deliveries (b.arrive k a).1, P p.1 p.2) ∧
      ∀ j c, (b.arrive k a).2.held j = some c → P j c := by
  have hhold : ∀ j c, (b.hold k a).held j = some c → P j c := by
    intro j c hj
    simp only [ReorderBuffer.hold] at hj
    by_cases hjk : j = k
    · subst hjk
      rw [Function.update_self] at hj
      cases hj
      exact hk
    · rw [Function.update_of_ne hjk] at hj
      exact h j c hj
  rcases Nat.lt_trichotomy k b.next with hlt | heq | hgt
  · rw [arrive_of_lt hlt]
    refine ⟨?_, h⟩
    intro p hp
    split_ifs at hp <;> cases hp
  · rw [arrive_of_eq heq]
    exact drain_items hhold
  · rw [arrive_of_gt hgt]
    refine ⟨?_, hhold⟩
    rw [deliveries_nacks]
    intro p hp
    cases hp

theorem drain_seen (fuel : ℕ) (b : ReorderBuffer α) : (drain fuel b).2.seen = b.seen :=
  drain_induct (P := fun c => c.seen = b.seen) (fun _ hc _ => hc) fuel rfl

def Output.isNack (k : ℕ) : Output α → Bool
  | .nack j => j == k
  | .deliver _ _ | .ack _ => false

/-- The rejections of number `k`. -/
def rejections (k : ℕ) (out : List (Output α)) : ℕ := out.countP (Output.isNack k)

theorem rejections_nacks (start stop k : ℕ) : rejections k (nacks start stop : List (Output α)) =
    if start ≤ k ∧ k < stop then 1 else 0 := by
  have hcount : rejections k (nacks start stop : List (Output α)) =
      (List.range' start (stop - start)).count k :=
    List.countP_map
  have hiff : start ≤ k ∧ k < start + (stop - start) ↔ start ≤ k ∧ k < stop := by omega
  rw [hcount, List.count_range_1']
  simp only [hiff]

theorem rejections_drain (fuel : ℕ) (b : ReorderBuffer α) (k : ℕ) :
    rejections k (drain fuel b).1 = 0 := by
  refine List.countP_eq_zero.mpr fun o ho => ?_
  cases o with
  | deliver j a => exact Bool.false_ne_true
  | ack j => exact Bool.false_ne_true
  | nack j => exact absurd ho (nack_not_mem_drain fuel b j)

/-- A number is rejected when a higher one overtakes it, and when an old item
arrives while it is the first one missing. -/
theorem rejections_arrive {b : ReorderBuffer α} (h : b.next ≤ b.seen) (j k : ℕ) (a : α) :
    rejections k (b.arrive j a).1 = (if b.seen ≤ k ∧ k < j then 1 else 0) +
      if j < b.next ∧ b.next ≠ b.seen ∧ b.next = k then 1 else 0 := by
  rcases Nat.lt_trichotomy j b.next with hlt | heq | hgt
  · have hskip : ¬(b.seen ≤ k ∧ k < j) := by omega
    rw [arrive_of_lt hlt, if_neg hskip, Nat.zero_add]
    by_cases hidle : b.next = b.seen
    · have hagain : ¬(j < b.next ∧ b.next ≠ b.seen ∧ b.next = k) := fun hw => hw.2.1 hidle
      rw [if_pos hidle, if_neg hagain]
      rfl
    · rw [if_neg hidle]
      by_cases hk : b.next = k
      · have hagain : j < b.next ∧ b.next ≠ b.seen ∧ b.next = k := ⟨hlt, hidle, hk⟩
        rw [if_pos hagain]
        simp [rejections, Output.isNack, hk]
      · have hagain : ¬(j < b.next ∧ b.next ≠ b.seen ∧ b.next = k) := fun hw => hk hw.2.2
        rw [if_neg hagain]
        simp [rejections, Output.isNack, hk]
  · have hskip : ¬(b.seen ≤ k ∧ k < j) := by omega
    have hagain : ¬(j < b.next ∧ b.next ≠ b.seen ∧ b.next = k) := by omega
    rw [arrive_of_eq heq, rejections_drain, if_neg hskip, if_neg hagain]
  · have hagain : ¬(j < b.next ∧ b.next ≠ b.seen ∧ b.next = k) := by omega
    rw [arrive_of_gt hgt, rejections_nacks, if_neg hagain, Nat.add_zero]

/-- Number `k` has been rejected `count` times, all but the first time because of
an old item, which has happened `again` times. -/
structure Rejected (b : ReorderBuffer α) (k count again : ℕ) : Prop where
  unseen : b.seen ≤ k → count = 0
  missing : b.next ≤ k → k < b.seen → b.held k = none → 0 < count
  count_eq : count = (if 0 < count then 1 else 0) + again

theorem rejected_empty (k : ℕ) : Rejected (empty : ReorderBuffer α) k 0 0 where
  unseen := fun _ => rfl
  missing := fun _ hlt => absurd hlt (Nat.not_lt_zero k)
  count_eq := rfl

theorem arrive_seen {b : ReorderBuffer α} {j : ℕ} {a : α} (hj : b.next ≤ j) :
    (b.arrive j a).2.seen = max b.seen (j + 1) := by
  rcases Nat.lt_or_eq_of_le hj with hlt | heq
  · rw [arrive_of_gt hlt]
    rfl
  · rw [arrive_of_eq heq.symm, drain_seen]
    rfl

theorem arrive_missing {b : ReorderBuffer α} {j k : ℕ} {a : α} (hj : b.next ≤ j)
    (hk : (b.arrive j a).2.next ≤ k) (hheld : (b.arrive j a).2.held k = none) :
    k ≠ j ∧ b.held k = none := by
  have hhold : (b.hold j a).held k = none := by
    rcases Nat.lt_or_eq_of_le hj with hlt | heq
    · rwa [arrive_of_gt hlt] at hheld
    · rw [arrive_of_eq heq.symm] at hk hheld
      rwa [drain_held hk] at hheld
  simp only [hold] at hhold
  by_cases hkj : k = j
  · rw [hkj, Function.update_self] at hhold
    cases hhold
  · rw [Function.update_of_ne hkj] at hhold
    exact ⟨hkj, hhold⟩

theorem Rejected.arrive {b : ReorderBuffer α} {k count again : ℕ} (h : Rejected b k count again)
    (hb : b.WellFormed) (j : ℕ) (a : α) :
    Rejected (b.arrive j a).2 k (count + rejections k (b.arrive j a).1)
      (again + if j < b.next ∧ b.next ≠ b.seen ∧ b.next = k then 1 else 0) := by
  have hle := hb.next_le
  have hcount := h.count_eq
  rw [rejections_arrive hle]
  rcases Nat.lt_or_ge j b.next with hlt | hge
  · have hskip : ¬(b.seen ≤ k ∧ k < j) := by omega
    rw [if_neg hskip, Nat.zero_add, arrive_of_lt hlt]
    by_cases hagain : j < b.next ∧ b.next ≠ b.seen ∧ b.next = k
    · have hpos := h.missing (by omega) (by omega) (hagain.2.2 ▸ hb.missing)
      rw [if_pos hpos] at hcount
      rw [if_pos hagain]
      refine ⟨fun hseen => ?_, fun _ _ _ => Nat.succ_pos _, ?_⟩
      · dsimp only at hseen
        omega
      · rw [if_pos (Nat.succ_pos _), hcount, Nat.add_assoc]
    · rw [if_neg hagain]
      exact h
  · have hagain : ¬(j < b.next ∧ b.next ≠ b.seen ∧ b.next = k) := by omega
    have hseen := arrive_seen (a := a) hge
    have hnext := (arrive_inTurn b j a).2
    rw [if_neg hagain]
    by_cases hskip : b.seen ≤ k ∧ k < j
    · have hzero := h.unseen hskip.1
      rw [hzero, if_neg (Nat.lt_irrefl 0)] at hcount
      rw [if_pos hskip, hzero]
      refine ⟨fun hk => by omega, fun _ _ _ => Nat.zero_lt_one, ?_⟩
      rw [if_pos Nat.zero_lt_one]
      omega
    · rw [if_neg hskip]
      refine ⟨fun hk => h.unseen (by omega), fun hk hk' hheld => ?_, hcount⟩
      obtain ⟨hne, hmissing⟩ := arrive_missing hge hk hheld
      exact h.missing (by omega) (by omega) hmissing

theorem arrive_seen_le {b : ReorderBuffer α} {k m : ℕ} {a : α} (hseen : b.seen ≤ m)
    (hk : k < m) : (b.arrive k a).2.seen ≤ m := by
  rcases Nat.lt_trichotomy k b.next with hlt | heq | hgt
  · rw [arrive_of_lt hlt]
    exact hseen
  · rw [arrive_of_eq heq, drain_seen]
    simp only [ReorderBuffer.hold]
    omega
  · rw [arrive_of_gt hgt]
    simp only [ReorderBuffer.hold]
    omega

theorem arrive_acks {b : ReorderBuffer α} {k : ℕ} (a : α) (hk : k ≤ b.next) :
    ∃ j, k < j ∧ Output.ack j ∈ (b.arrive k a).1 := by
  rcases Nat.lt_or_eq_of_le hk with hlt | heq
  · rw [arrive_of_lt hlt]
    exact ⟨b.next, hlt, List.mem_cons_self⟩
  · have hheld : (b.hold k a).held (b.hold k a).next = some a := by
      simp only [ReorderBuffer.hold, heq, Function.update_self]
    rw [arrive_of_eq heq, show (b.hold k a).seen - b.next = ((b.hold k a).seen - b.next - 1) + 1 by
      simp only [ReorderBuffer.hold]
      omega, drain_of_held hheld]
    refine ⟨k + 1, by omega, ?_⟩
    simp only [ReorderBuffer.hold, heq, List.mem_cons, true_or, or_true]

end ReorderBuffer
end SelRej

import SelRej.CircularArray
import SelRej.ReorderBuffer
import SelRej.Window

/-!
# rcopy's window is a reorder buffer

While rcopy waits for missing packets, its window holds a reorder buffer:
`lower` and `firstSeq` stand for `next`, `current` and `lastSeq` for the
predecessor of `seen`, and the slots for what is held (`Waiting`). When
nothing is missing the window is `Idle`. There is one specification lemma for
each case of `skip`, `buffer` and `unbuffer`.

The sums of an index and `winSize` stay `int`s when `winSize` is at most two to
the 30, and otherwise as long as the numbers are small enough; `FitsInt` is
this condition.
-/
namespace SelRej
open CInt CircularArray

/-- No sum of `winSize` and the index of a number up to `k` leaves `int`. -/
def FitsInt (w k : ℕ) : Prop := w ≤ 1073741824 ∨ k + w < 2147483648

theorem FitsInt.index {w k j : ℕ} (h : FitsInt w k) (hpos : 0 < w) (hj : j ≤ k) :
    j % w + w < 2147483648 := by
  have hmod := Nat.mod_lt j hpos
  have hle := Nat.mod_le j w
  rcases h with h | h <;> omega

structure Idle (win : Window) (w : ℕ) : Prop where
  pos : 0 < w
  small : w < 2147483648
  winSize : win.winSize = w
  current : win.current = -1
  lower : 0 ≤ win.lower ∧ win.lower < w
  vacant : ∀ i : ℕ, i < w → win.queue i = none

structure Waiting (win : Window) (w : ℕ) (b : ReorderBuffer PduS) : Prop where
  pos : 0 < w
  small : w < 2147483648
  winSize : win.winSize = w
  lower : win.lower = ((b.next % w : ℕ) : ℤ)
  upper : win.upper = (((b.next + w - 1) % w : ℕ) : ℤ)
  current : win.current = (((b.seen - 1) % w : ℕ) : ℤ)
  firstSeq : win.firstSeq.toNat = b.next
  lastSeq : win.lastSeq.toNat + 1 = b.seen
  missing : b.next < b.seen
  fits : b.seen ≤ b.next + w
  slots : Holds win.queue w b.next b.held
  held : ∀ k packet, b.held k = some packet →
    b.next ≤ k ∧ k < b.seen ∧ packet.seqNum.toNat = k

section
variable {win : Window} {w : ℕ} {b : ReorderBuffer PduS}

theorem idle_initWindow (hpos : 0 < w) (hsmall : w < 2147483648) :
    Idle (initWindow noWindow w).2 w := by
  unfold initWindow
  rw [if_neg (by omega)]
  refine ⟨hpos, hsmall, rfl, rfl, ⟨Int.le_refl 0, ?_⟩, fun _ _ => rfl⟩
  simp only
  omega

theorem Idle.isBufEmpty (h : Idle win w) : isBufEmpty win = true :=
  decide_eq_true h.current

namespace Waiting

theorem isBufEmpty (h : Waiting win w b) : isBufEmpty win = false := by
  apply decide_eq_false
  rw [h.current]
  omega

theorem queue_eq (h : Waiting win w b) {k : ℕ} (hk : b.next ≤ k) (hk' : k < b.next + w) :
    win.queue ((k % w : ℕ) : ℤ) = b.held k :=
  h.slots k hk hk'

theorem slot_eq (h : Waiting win w b) {k : ℕ} (hk : b.next ≤ k) (hk' : k < b.next + w) :
    win.slot ((k % w : ℕ) : ℤ) = .ok (b.held k) := by
  rw [Window.slot_natCast h.winSize (Nat.mod_lt k h.pos), h.queue_eq hk hk']

theorem store_lower (h : Waiting win w b) (packet : Option PduS) :
    win.store win.lower packet = .ok { win with
      queue := Function.update win.queue ((b.next % w : ℕ) : ℤ) packet } := by
  rw [← Window.store_natCast h.winSize (Nat.mod_lt _ h.pos), h.lower]

theorem index_eq_iff {j k : ℕ} (hj : b.next ≤ j) (hj' : j < b.next + w) (hk : b.next ≤ k)
    (hk' : k < b.next + w) : ((j % w : ℕ) : ℤ) = ((k % w : ℕ) : ℤ) ↔ j = k :=
  ⟨fun h => eq_of_mod_eq hj hj' hk hk' (Int.ofNat.inj h), fun h => by rw [h]⟩

theorem ne_lower (h : Waiting win w b) {k : ℕ} (hk : b.next < k) (hk' : k < b.next + w) :
    ((k % w : ℕ) : ℤ) ≠ win.lower := by
  rw [h.lower, Ne, index_eq_iff (b := b) (by omega) hk' (Nat.le_refl _) (by omega)]
  exact Nat.ne_of_gt hk

theorem isBufFull_iff (h : Waiting win w b) :
    isBufFull win = true ↔ b.seen = b.next + w := by
  have hpos := h.pos
  have hmissing := h.missing
  have hfits := h.fits
  rw [isBufFull, decide_eq_true_eq, h.current, h.upper,
    index_eq_iff (b := b) (by omega) (by omega) (by omega) (by omega)]
  omega

end Waiting

theorem Idle.skip_eq (h : Idle win w) {seqNum : UInt32} (hfit : FitsInt w seqNum.toNat) :
    ∃ win', skip win seqNum = .ok (1, win') ∧
      Waiting win' w ⟨seqNum.toNat, seqNum.toNat + 1, fun _ => none⟩ := by
  have hpos := h.pos
  have hsum := hfit.index hpos (Nat.le_refl _)
  have hskip : skip win seqNum = .ok (1, { win with
      lower := ((seqNum.toNat % w : ℕ) : ℤ)
      current := ((seqNum.toNat % w : ℕ) : ℤ)
      upper := (((seqNum.toNat + w - 1) % w : ℕ) : ℤ)
      lastSeq := seqNum
      firstSeq := seqNum }) := by
    unfold skip
    rw [if_pos h.isBufEmpty]
    simp only [Window.slotOf_eq h.winSize]
    rw [Window.tmod_last h.winSize hpos (by omega)]
  refine ⟨_, hskip, ⟨hpos, h.small, h.winSize, rfl, rfl, rfl, rfl, rfl, Nat.lt_succ_self _, ?_,
    holds_none_iff.mpr h.vacant, ?_⟩⟩
  · simp only
    omega
  · intro k packet hk
    cases hk

/-- The number after the last one is skipped while there is room. -/
theorem Waiting.skip_eq (h : Waiting win w b) {seqNum : UInt32} (hseq : seqNum.toNat = b.seen)
    (hroom : b.seen < b.next + w) :
    ∃ win', skip win seqNum = .ok (1, win') ∧
      Waiting win' w ⟨b.next, b.seen + 1, b.held⟩ := by
  have hmissing := h.missing
  have hnext : (i32 (win.current + 1)).tmod win.winSize = ((b.seen % w : ℕ) : ℤ) := by
    rw [h.current, Window.tmod_succ h.winSize h.pos h.small, Nat.sub_add_cancel (by omega)]
  have hslot : win.slotOf seqNum = ((b.seen % w : ℕ) : ℤ) := by
    rw [Window.slotOf_eq h.winSize, hseq]
  have hfull : isBufFull win ≠ true := by
    rw [Ne, h.isBufFull_iff]
    omega
  have hskip : skip win seqNum = .ok (1, { win with
      current := ((b.seen % w : ℕ) : ℤ)
      lastSeq := seqNum }) := by
    unfold skip
    rw [h.isBufEmpty, if_neg Bool.false_ne_true, if_neg hfull, hslot, hnext,
      if_neg (not_not.mpr rfl)]
  refine ⟨_, hskip, ⟨h.pos, h.small, h.winSize, h.lower, h.upper, rfl, h.firstSeq, ?_, ?_, ?_,
    h.slots, ?_⟩⟩
  · simp only [hseq]
  · simp only
    omega
  · simp only
    omega
  · intro k packet hk
    have := h.held k packet hk
    simp only
    omega

theorem Waiting.skip_of_full (h : Waiting win w b) (hfull : b.seen = b.next + w)
    (seqNum : UInt32) : skip win seqNum = .error .exit := by
  unfold skip
  rw [h.isBufEmpty, if_neg Bool.false_ne_true, if_pos (h.isBufFull_iff.mpr hfull)]

/-- `lessIndex` orders indices by the distance of their numbers from `next`. -/
theorem Waiting.circleIndex_eq (h : Waiting win w b) {k : ℕ} (hk : b.next ≤ k)
    (hk' : k < b.next + w) (hfit : k % w + w < 2147483648) :
    circleIndex win ((k % w : ℕ) : ℤ) = ((k - b.next : ℕ) : ℤ) := by
  have hpos := h.pos
  have hup := Nat.mod_lt (b.next + w - 1) hpos
  have hsum : i32 (i32 (i32 (((k % w : ℕ) : ℤ) + win.winSize) - 1) - win.upper) =
      ((k % w + w - 1 - (b.next + w - 1) % w : ℕ) : ℤ) := by
    rw [h.winSize, h.upper, i32_of_range (x := ((k % w : ℕ) : ℤ) + w) (by omega) (by omega),
      i32_of_range (x := ((k % w : ℕ) : ℤ) + w - 1) (by omega) (by omega),
      i32_of_range (by omega) (by omega)]
    omega
  rw [circleIndex, hsum, h.winSize, natCast_tmod, distance_eq hk hk']

theorem Waiting.lessIndex_iff (h : Waiting win w b) {j k : ℕ} (hj : b.next ≤ j)
    (hj' : j < b.next + w) (hk : b.next ≤ k) (hk' : k < b.next + w) (hfit : FitsInt w j)
    (hfit' : FitsInt w k) :
    lessIndex win ((j % w : ℕ) : ℤ) ((k % w : ℕ) : ℤ) = true ↔ j < k := by
  rw [lessIndex, decide_eq_true_eq, h.circleIndex_eq hj hj' (hfit.index h.pos (Nat.le_refl _)),
    h.circleIndex_eq hk hk' (hfit'.index h.pos (Nat.le_refl _))]
  omega

theorem Waiting.held_hold (h : Waiting win w b) {packet other : PduS} {j k : ℕ}
    (hseq : packet.seqNum.toNat = k) (hk : b.next ≤ k)
    (hj : (b.hold k packet).held j = some other) :
    b.next ≤ j ∧ j < (b.hold k packet).seen ∧ other.seqNum.toNat = j := by
  simp only [ReorderBuffer.hold] at hj ⊢
  by_cases hjk : j = k
  · subst hjk
    rw [Function.update_self] at hj
    cases hj
    exact ⟨hk, by omega, hseq⟩
  · rw [Function.update_of_ne hjk] at hj
    obtain ⟨hge, hlt, hother⟩ := h.held j other hj
    exact ⟨hge, by omega, hother⟩

theorem Waiting.store_below (h : Waiting win w b) {packet : PduS} {k : ℕ}
    (hseq : packet.seqNum.toNat = k) (hk : b.next ≤ k) (hlt : k < b.seen) :
    Waiting { win with queue := Function.update win.queue ((k % w : ℕ) : ℤ) (some packet) } w
      (b.hold k packet) := by
  have hfits := h.fits
  have hseen : (b.hold k packet).seen = b.seen := Nat.max_eq_left hlt
  refine ⟨h.pos, h.small, h.winSize, h.lower, h.upper, ?_, h.firstSeq, ?_, ?_, ?_,
    h.slots.write hk (by omega) (some packet), fun _ _ hj => h.held_hold hseq hk hj⟩
  · rw [hseen]
    exact h.current
  · rw [hseen]
    exact h.lastSeq
  · rw [hseen]
    exact h.missing
  · rw [hseen]
    exact hfits

theorem Waiting.store_above (h : Waiting win w b) {packet : PduS} {k : ℕ}
    (hseq : packet.seqNum.toNat = k) (hle : b.seen ≤ k) (hk' : k < b.next + w) :
    Waiting { win with
      queue := Function.update win.queue ((k % w : ℕ) : ℤ) (some packet)
      current := ((k % w : ℕ) : ℤ)
      lastSeq := packet.seqNum } w (b.hold k packet) := by
  have hmissing := h.missing
  have hk : b.next ≤ k := by omega
  have hseen : (b.hold k packet).seen = k + 1 := Nat.max_eq_right (by omega)
  refine ⟨h.pos, h.small, h.winSize, h.lower, h.upper, ?_, h.firstSeq, ?_, ?_, ?_,
    h.slots.write hk hk' (some packet), fun _ _ hj => h.held_hold hseq hk hj⟩
  · rw [hseen, Nat.add_sub_cancel]
  · rw [hseen, hseq]
  · rw [hseen]
    exact Nat.lt_succ_of_le hk
  · rw [hseen]
    exact hk'

theorem Waiting.buffer_next (h : Waiting win w b) {packet : PduS}
    (hseq : packet.seqNum.toNat = b.next) :
    ∃ win', buffer win packet = .ok (2, win') ∧ Waiting win' w (b.hold b.next packet) := by
  have hslot : win.slotOf packet.seqNum = win.lower := by
    rw [Window.slotOf_eq h.winSize, hseq, h.lower]
  have hbuffer : buffer win packet = .ok (2, { win with
      queue := Function.update win.queue ((b.next % w : ℕ) : ℤ) (some packet) }) := by
    unfold buffer
    rw [if_neg (by rw [h.current]; omega), if_pos hslot, h.store_lower, ok_bind]
    rfl
  exact ⟨_, hbuffer, h.store_below hseq (Nat.le_refl _) h.missing⟩

section
variable {packet : PduS} {k : ℕ}

theorem Waiting.buffer_held (h : Waiting win w b) {other : PduS}
    (hseq : packet.seqNum.toNat = k) (hk : b.next < k) (hk' : k < b.next + w)
    (hold : b.held k = some other) :
    buffer win packet = .ok (1, { win with
      queue := Function.update win.queue ((k % w : ℕ) : ℤ) (some packet) }) := by
  have hslot : win.slotOf packet.seqNum = ((k % w : ℕ) : ℤ) := by
    rw [Window.slotOf_eq h.winSize, hseq]
  obtain ⟨_, _, hother⟩ := h.held k other hold
  unfold buffer
  rw [if_neg (by rw [h.current]; omega), hslot, if_neg (h.ne_lower hk hk'),
    h.slot_eq (by omega) hk', hold, ok_bind]
  dsimp only
  rw [if_pos (UInt32.toNat_inj.mp (hseq.trans hother.symm)),
    Window.store_natCast h.winSize (Nat.mod_lt _ h.pos), ok_bind]
  rfl

/-- A new packet is stored, and becomes the last if it is above all others. -/
theorem Waiting.buffer_vacant (h : Waiting win w b) (hseq : packet.seqNum.toNat = k)
    (hk : b.next < k) (hk' : k < b.next + w) (hfit : FitsInt w k) (hlast : FitsInt w (b.seen - 1))
    (hvacant : b.held k = none) :
    buffer win packet = .ok (1,
      if b.seen ≤ k then
        { win with
          queue := Function.update win.queue ((k % w : ℕ) : ℤ) (some packet)
          current := ((k % w : ℕ) : ℤ)
          lastSeq := packet.seqNum }
      else
        { win with queue := Function.update win.queue ((k % w : ℕ) : ℤ) (some packet) }) := by
  have hmissing := h.missing
  have hfits := h.fits
  have hslot : win.slotOf packet.seqNum = ((k % w : ℕ) : ℤ) := by
    rw [Window.slotOf_eq h.winSize, hseq]
  have hless : lessIndex
      { win with queue := Function.update win.queue ((k % w : ℕ) : ℤ) (some packet) }
      win.current ((k % w : ℕ) : ℤ) = true ↔ b.seen ≤ k := by
    have hiff := h.lessIndex_iff (show b.next ≤ b.seen - 1 by omega) (by omega) (by omega) hk'
      hlast hfit
    rw [← h.current] at hiff
    exact hiff.trans (by omega)
  unfold buffer
  rw [if_neg (by rw [h.current]; omega), hslot, if_neg (h.ne_lower hk hk'),
    h.slot_eq (by omega) hk', hvacant, ok_bind]
  dsimp only
  rw [Window.store_natCast h.winSize (Nat.mod_lt _ h.pos), ok_bind]
  by_cases hle : b.seen ≤ k
  · rw [if_pos (hless.mpr hle), if_pos hle]
    rfl
  · rw [if_neg (fun hl => hle (hless.mp hl)), if_neg hle]
    rfl

/-- A packet above the first missing one is stored. -/
theorem Waiting.buffer_above (h : Waiting win w b) (hseq : packet.seqNum.toNat = k)
    (hk : b.next < k) (hk' : k < b.next + w) (hfit : FitsInt w k)
    (hlast : FitsInt w (b.seen - 1)) :
    ∃ win', buffer win packet = .ok (1, win') ∧ Waiting win' w (b.hold k packet) := by
  cases hold : b.held k with
  | some other =>
      obtain ⟨_, hlt, _⟩ := h.held k other hold
      exact ⟨_, h.buffer_held hseq hk hk' hold, h.store_below hseq (by omega) hlt⟩
  | none =>
      refine ⟨_, h.buffer_vacant hseq hk hk' hfit hlast hold, ?_⟩
      split_ifs with hle
      · exact h.store_above hseq hle hk'
      · exact h.store_below hseq (by omega) (by omega)

end

/-- The packet one whole window above the first missing one has its slot. -/
theorem Waiting.buffer_collision (h : Waiting win w b) {packet : PduS}
    (hseq : packet.seqNum.toNat = b.next + w) :
    ∃ win', buffer win packet = .ok (2, win') := by
  have hslot : win.slotOf packet.seqNum = win.lower := by
    rw [Window.slotOf_eq h.winSize, hseq, h.lower, Nat.add_mod_right]
  refine ⟨{ win with
    queue := Function.update win.queue ((b.next % w : ℕ) : ℤ) (some packet) }, ?_⟩
  unfold buffer
  rw [if_neg (by rw [h.current]; omega), if_pos hslot, h.store_lower, ok_bind]
  rfl

theorem Waiting.unbuffer_missing (h : Waiting win w b) (hmissing : b.held b.next = none) :
    unbuffer win = .ok (none, win) := by
  have hpos := h.pos
  unfold unbuffer
  rw [h.lower, h.slot_eq (Nat.le_refl _) (by omega), hmissing, ok_bind]
  rfl

theorem Idle.unbuffer_eq (h : Idle win w) : unbuffer win = .ok (none, win) := by
  obtain ⟨i, hi⟩ := Int.eq_ofNat_of_zero_le h.lower.1
  have hlt := h.lower.2
  unfold unbuffer
  rw [hi, Window.slot_natCast (w := w) h.winSize (by omega), h.vacant i (by omega), ok_bind]
  rfl

theorem Waiting.slots_release (h : Waiting win w b) :
    Holds (Function.update win.queue ((b.next % w : ℕ) : ℤ) none) w (b.next + 1)
      b.release.held := by
  have hpos := h.pos
  have hfits := h.fits
  have hnone : b.held (b.next + w) = none := by
    cases hk : b.held (b.next + w) with
    | none => rfl
    | some other =>
        obtain ⟨_, hlt, _⟩ := h.held _ _ hk
        omega
  apply (h.slots.write (Nat.le_refl _) (by omega) none).advance
  rw [Function.update_self, Function.update_of_ne (by omega), hnone]

theorem Waiting.held_release (h : Waiting win w b) {k : ℕ} {other : PduS}
    (hk : b.release.held k = some other) :
    b.release.next ≤ k ∧ k < b.release.seen ∧ other.seqNum.toNat = k := by
  simp only [ReorderBuffer.release] at hk ⊢
  by_cases hkn : k = b.next
  · subst hkn
    rw [Function.update_self] at hk
    cases hk
  · rw [Function.update_of_ne hkn] at hk
    obtain ⟨hge, hlt, hother⟩ := h.held _ _ hk
    exact ⟨by omega, hlt, hother⟩

theorem Waiting.unbuffer_eq (h : Waiting win w b) {packet : PduS}
    (hheld : b.held b.next = some packet) :
    unbuffer win = .ok (some packet, { win with
      firstSeq := packet.seqNum + 1
      queue := Function.update win.queue ((b.next % w : ℕ) : ℤ) none
      current := if b.next + 1 = b.seen then -1 else win.current
      lower := (((b.next + 1) % w : ℕ) : ℤ)
      upper := (((b.next + 1 + w - 1) % w : ℕ) : ℤ) }) := by
  have hpos := h.pos
  have hmissing := h.missing
  have hfits := h.fits
  have hempty : win.current = win.lower ↔ b.next + 1 = b.seen := by
    rw [h.current, h.lower,
      Waiting.index_eq_iff (b := b) (by omega) (by omega) (by omega) (by omega)]
    omega
  have hlower : (i32 (win.lower + 1)).tmod win.winSize = (((b.next + 1) % w : ℕ) : ℤ) := by
    rw [h.lower, Window.tmod_succ h.winSize hpos h.small]
  have hupper : (i32 (win.upper + 1)).tmod win.winSize =
      (((b.next + 1 + w - 1) % w : ℕ) : ℤ) := by
    rw [h.upper, Window.tmod_succ h.winSize hpos h.small]
    congr 2
    omega
  unfold unbuffer
  rw [h.lower, h.slot_eq (Nat.le_refl _) (by omega), hheld, ok_bind]
  dsimp only
  rw [Window.store_natCast (w := w), ok_bind]
  · simp only [pure_eq_ok, ← h.lower, hempty]
    split_ifs
    · simp only [hlower, hupper]
    · simp only [hlower, hupper]
  · exact h.winSize
  · exact Nat.mod_lt _ hpos

/-- The packet in turn leaves the window, which is idle if it was the last. -/
theorem Waiting.unbuffer_held (h : Waiting win w b) {packet : PduS}
    (hheld : b.held b.next = some packet) :
    ∃ win', unbuffer win = .ok (some packet, win') ∧ win'.lastSeq = win.lastSeq ∧
      (if b.next + 1 = b.seen then Idle win' w else Waiting win' w b.release) := by
  have hmissing := h.missing
  have hfits := h.fits
  refine ⟨_, h.unbuffer_eq hheld, rfl, ?_⟩
  split_ifs with hend
  · refine ⟨h.pos, h.small, h.winSize, rfl, ?_, ?_⟩
    · have hmod := Nat.mod_lt (b.next + 1) h.pos
      simp only
      omega
    · -- only the packet that left was held
      apply holds_none_iff.mp (h.slots_release.congr fun k hk _ => ?_)
      cases hk' : b.release.held k with
      | none => rfl
      | some other =>
          obtain ⟨_, hlt, _⟩ := h.held_release hk'
          simp only [ReorderBuffer.release] at hlt
          omega
  · have hseq := (h.held _ _ hheld).2.2
    have hlast := h.lastSeq
    have hlastlt := win.lastSeq.toNat_lt
    have hone : (1 : UInt32).toNat = 1 := rfl
    refine ⟨h.pos, h.small, h.winSize, rfl, rfl, h.current, ?_, h.lastSeq, ?_, ?_,
      h.slots_release, fun _ _ hk => h.held_release hk⟩
    · simp only [ReorderBuffer.release, UInt32.toNat_add, hseq, hone]
      omega
    · simp only [ReorderBuffer.release]
      omega
    · simp only [ReorderBuffer.release]
      omega

end
end SelRej

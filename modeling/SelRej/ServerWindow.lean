import SelRej.CircularArray
import SelRej.Window

/-!
# The server window is an interval

After `sent.length` sends the server window stands for the interval from the
lowest unacknowledged number `lo` up to `sent.length`. `Interval` ties the
array and the indices to it, with the exception of `upper`, whose sum can leave
`int` when the window is larger than two to the 30; `upper` is the separate
equation `HasUpper`. Each operation has one specification lemma.
-/
namespace SelRej
open CInt CircularArray

structure Interval (win : Window) (w lo : ℕ) (sent : List PduS) : Prop where
  pos : 0 < w
  small : w < 2147483648
  winSize : win.winSize = w
  lower : win.lower = ((lo % w : ℕ) : ℤ)
  current : win.current =
    if sent.length = 0 then -1 else (((sent.length - 1) % w : ℕ) : ℤ)
  le : lo ≤ sent.length
  fits : sent.length ≤ lo + w
  slots : Holds win.queue w lo fun k => sent[k]?
  numbered : ∀ k (h : k < sent.length), sent[k].seqNum.toNat = k

def HasUpper (win : Window) (w lo : ℕ) : Prop :=
  win.upper = (((lo + w - 1) % w : ℕ) : ℤ)

section
variable {win : Window} {w lo : ℕ} {sent : List PduS}

theorem interval_initWindow {w : ℕ} (hpos : 0 < w) (hsmall : w < 2147483648) :
    Interval (initWindow noWindow w).2 w 0 [] ∧ HasUpper (initWindow noWindow w).2 w 0 := by
  unfold initWindow
  rw [if_neg (by omega)]
  refine ⟨⟨hpos, hsmall, rfl, ?_, rfl, Nat.le_refl 0, Nat.zero_le _, ?_, ?_⟩, ?_⟩
  · rw [Nat.zero_mod]
    rfl
  · intro k _ _
    rfl
  · intro k hk
    cases hk
  · simp only [HasUpper]
    rw [i32_of_range (by omega) (by omega), Nat.mod_eq_of_lt (by omega)]
    omega

namespace Interval

theorem queue_eq (h : Interval win w lo sent) {k : ℕ} (hk : lo ≤ k) (hk' : k < lo + w) :
    win.queue ((k % w : ℕ) : ℤ) = sent[k]? :=
  h.slots k hk hk'

theorem slot_eq (h : Interval win w lo sent) {k : ℕ} (hk : lo ≤ k) (hk' : k < lo + w) :
    win.slot ((k % w : ℕ) : ℤ) = .ok sent[k]? := by
  rw [Window.slot_natCast h.winSize (Nat.mod_lt k h.pos), h.queue_eq hk hk']

theorem deref_eq (h : Interval win w lo sent) {k : ℕ} (hk : lo ≤ k)
    (hk' : k < sent.length) : win.deref ((k % w : ℕ) : ℤ) = .ok sent[k] := by
  have hfits := h.fits
  apply Window.deref_of_slot
  rw [h.slot_eq hk (by omega), List.getElem?_eq_getElem hk']

theorem isWindowEmpty_eq (h : Interval win w lo sent) :
    isWindowEmpty win = .ok (decide (lo = sent.length)) := by
  have hpos := h.pos
  have hle := h.le
  unfold isWindowEmpty
  rw [h.lower, h.slot_eq (Nat.le_refl lo) (by omega), ok_bind]
  simp only [pure_eq_ok, Except.ok.injEq]
  rw [Bool.eq_iff_iff]
  simp only [Option.isNone_iff_eq_none, List.getElem?_eq_none_iff, decide_eq_true_eq]
  omega

theorem isWindowFull_eq (h : Interval win w lo sent) (hup : HasUpper win w lo) :
    isWindowFull win = .ok (decide (sent.length = lo + w)) := by
  have hpos := h.pos
  have hfits := h.fits
  unfold isWindowFull
  rw [hup, h.slot_eq (by omega) (by omega), ok_bind]
  simp only [pure_eq_ok, Except.ok.injEq]
  rw [Bool.eq_iff_iff]
  simp only [Option.isSome_iff_ne_none, ne_eq, List.getElem?_eq_none_iff, decide_eq_true_eq]
  omega

/-- Whatever `upper` is, a window that is not reported full has room: in a full
window every slot is occupied. -/
theorem room_of_not_full (h : Interval win w lo sent) (hfull : isWindowFull win = .ok false) :
    sent.length < lo + w := by
  by_contra hroom
  obtain ⟨packet, hslot, hpacket⟩ := bind_eq_ok_iff.mp hfull
  have hrange : 0 ≤ win.upper ∧ win.upper < win.winSize := by
    by_contra hout
    rw [Window.slot, if_neg hout] at hslot
    cases hslot
  have hwin := h.winSize
  obtain ⟨k, hk, hk', hmod⟩ := exists_mod_eq (w := w) (i := win.upper.toNat) lo (by omega)
  have hupper : win.upper = ((k % w : ℕ) : ℤ) := by omega
  rw [hupper, h.slot_eq hk hk', List.getElem?_eq_getElem (by omega)] at hslot
  cases hslot
  cases hpacket

theorem serverSent_update (h : Interval win w lo sent) (hfull : isWindowFull win = .ok false)
    {packet : PduS} (hseq : packet.seqNum.toNat = sent.length) :
    serverSent win packet = .ok (1, { win with
      current := ((sent.length % w : ℕ) : ℤ)
      queue := Function.update win.queue ((sent.length % w : ℕ) : ℤ) (some packet) }) := by
  have hnext : (i32 (win.current + 1)).tmod win.winSize = ((sent.length % w : ℕ) : ℤ) := by
    rw [h.current]
    split_ifs with hzero
    · rw [hzero, Nat.zero_mod]
      exact Int.zero_tmod _
    · rw [Window.tmod_succ h.winSize h.pos h.small, Nat.sub_add_cancel (by omega)]
  have hslot : win.slotOf packet.seqNum = ((sent.length % w : ℕ) : ℤ) := by
    rw [Window.slotOf_eq h.winSize, hseq]
  unfold serverSent
  rw [hfull, ok_bind, if_neg Bool.false_ne_true, hslot, hnext, if_neg (not_not.mpr rfl)]
  dsimp only
  rw [Window.store_natCast (w := w), ok_bind]
  · rfl
  · exact h.winSize
  · exact Nat.mod_lt _ h.pos

theorem slots_concat (h : Interval win w lo sent) (hroom : sent.length < lo + w)
    (packet : PduS) :
    Holds (Function.update win.queue ((sent.length % w : ℕ) : ℤ) (some packet)) w lo
      fun k => (sent ++ [packet])[k]? := by
  refine (h.slots.write h.le hroom (some packet)).congr fun k hk hk' => ?_
  by_cases hkn : k = sent.length
  · subst hkn
    simp
  · rw [Function.update_of_ne hkn]
    by_cases hlt : k < sent.length
    · rw [List.getElem?_append_left hlt]
    · rw [List.getElem?_eq_none (by omega),
        List.getElem?_eq_none (by rw [List.length_append, List.length_singleton]; omega)]

theorem serverSent_eq (h : Interval win w lo sent) (hfull : isWindowFull win = .ok false)
    {packet : PduS} (hseq : packet.seqNum.toNat = sent.length) :
    ∃ win', serverSent win packet = .ok (1, win') ∧ Interval win' w lo (sent ++ [packet]) ∧
      win'.upper = win.upper := by
  have hroom := h.room_of_not_full hfull
  have hle := h.le
  refine ⟨_, h.serverSent_update hfull hseq,
    ⟨h.pos, h.small, h.winSize, h.lower, ?_, ?_, ?_, h.slots_concat hroom packet, ?_⟩, rfl⟩
  · simp
  · rw [List.length_append]
    omega
  · rw [List.length_append, List.length_singleton]
    omega
  · intro k hk
    by_cases hlt : k < sent.length
    · rw [List.getElem_append_left hlt]
      exact h.numbered k hlt
    · rw [List.length_append, List.length_singleton] at hk
      have hkn : k = sent.length := by omega
      subst hkn
      simpa using hseq

end Interval

theorem deref_lowest (hw : win.winSize = w) (hslots : Holds win.queue w lo fun k => sent[k]?)
    (hpos : 0 < w) (hlo : lo < sent.length) : win.deref ((lo % w : ℕ) : ℤ) = .ok sent[lo] := by
  apply Window.deref_of_slot
  rw [Window.slot_natCast hw (Nat.mod_lt lo hpos), hslots lo (Nat.le_refl lo) (by omega)]
  exact congrArg Except.ok (List.getElem?_eq_getElem hlo)

/-- Without its lowest slot the array is read from the next number on. -/
theorem slots_free (hslots : Holds win.queue w lo fun k => sent[k]?) (hpos : 0 < w)
    (hfits : sent.length ≤ lo + w) :
    Holds (Function.update win.queue ((lo % w : ℕ) : ℤ) none) w (lo + 1) fun k => sent[k]? := by
  have hwrite := hslots.write (Nat.le_refl lo) (by omega) none
  refine (hwrite.advance ?_).congr fun k hk _ => ?_
  · rw [Function.update_self, Function.update_of_ne (by omega), List.getElem?_eq_none hfits]
  · rw [Function.update_of_ne (by omega)]

theorem freeSlots_step (hw : win.winSize = w) (hslots : Holds win.queue w lo fun k => sent[k]?)
    (hlo : lo < sent.length) (hfits : sent.length ≤ lo + w) {i : ℤ}
    (hi : i.tmod win.winSize = ((lo % w : ℕ) : ℤ)) (n : ℕ) :
    ∃ queue, freeSlots (n + 1) i win = freeSlots n (i32 (i + 1)) { win with queue := queue } ∧
      Holds queue w (lo + 1) fun k => sent[k]? := by
  have hpos : 0 < w := by omega
  refine ⟨Function.update win.queue ((lo % w : ℕ) : ℤ) none, ?_, slots_free hslots hpos hfits⟩
  rw [freeSlots, hi, deref_lowest hw hslots hpos hlo, ok_bind,
    Window.store_natCast hw (Nat.mod_lt lo hpos), ok_bind]

/-- Below two to the 31 the loop frees exactly the slots it is meant to. -/
theorem freeSlots_eq (hw : win.winSize = w) (hslots : Holds win.queue w lo fun k => sent[k]?)
    (hfits : sent.length ≤ lo + w) {n : ℕ} (hn : lo + n ≤ sent.length)
    (hint : lo + n ≤ 2147483648) :
    ∃ queue, freeSlots n (i32 lo) win = .ok { win with queue := queue } ∧
      Holds queue w (lo + n) fun k => sent[k]? := by
  induction n generalizing lo win with
  | zero => exact ⟨win.queue, rfl, hslots⟩
  | succ n ih =>
      have hi : (i32 lo).tmod win.winSize = ((lo % w : ℕ) : ℤ) := by
        rw [i32_natCast (by omega), hw, natCast_tmod]
      obtain ⟨queue, hstep, hqueue⟩ := freeSlots_step hw hslots (by omega) hfits hi n
      obtain ⟨queue', hrest, hqueue'⟩ :=
        @ih { win with queue := queue } (lo + 1) hw hqueue (by omega) (by omega) (by omega)
      refine ⟨queue', ?_, by rwa [show lo + (n + 1) = lo + 1 + n by omega]⟩
      rw [hstep, i32_i32_add]
      exact hrest

/-- What is known of a lower bound that the loop of `recvRR` has reached: from
two to the 31 on, `i` is negative, and `i % winSize` is an index of the array
for `w = 1`, and otherwise at most for the first such number. -/
def IndexSound (w lo : ℕ) : Prop :=
  w = 1 ∨ lo ≤ 2147483648 ∨ lo = 2147483649 ∧ 2147483648 % w = 0

theorem tmod_sound (hpos : 0 < w) (hlo : lo < 4294967296) (hsound : IndexSound w lo) :
    (i32 lo).tmod w < 0 ∨ (i32 lo).tmod w = ((lo % w : ℕ) : ℤ) ∧ IndexSound w (lo + 1) := by
  by_cases hsmall : lo < 2147483648
  · rw [i32_natCast hsmall, natCast_tmod]
    exact .inr ⟨rfl, .inr (.inl hsmall)⟩
  have hneg : (i32 lo).tmod w = -(((4294967296 - lo) % w : ℕ) : ℤ) := by
    rw [i32_natCast_of_le (by omega) hlo,
      show (lo : ℤ) - 4294967296 = -((4294967296 - lo : ℕ) : ℤ) by omega, Int.neg_tmod,
      natCast_tmod]
  rw [hneg]
  by_cases hzero : (4294967296 - lo) % w = 0
  · -- the index is 0, and it is the right one
    rcases hsound with hone | hle | ⟨hlast, hdvd⟩
    · subst hone
      exact .inr ⟨by omega, .inl rfl⟩
    · obtain rfl : lo = 2147483648 := by omega
      have hdvd : 2147483648 % w = 0 := hzero
      refine .inr ⟨?_, .inr (.inr ⟨rfl, hdvd⟩)⟩
      rw [hzero]
      rfl
    · -- `w` divides two neighbours
      subst hlast
      have hone : (1 : ℕ) % w = 0 := by
        have := Nat.sub_mod_eq_zero_of_mod_eq (hdvd.trans hzero.symm)
        simpa using this
      have hw : w = 1 := by
        by_contra hne
        rw [Nat.mod_eq_of_lt (by omega)] at hone
        omega
      subst hw
      exact .inr ⟨by omega, .inl rfl⟩
  · exact .inl (by omega)

/-- For any numbers, the loop frees what it is meant to or leaves the array. -/
theorem freeSlots_sound (hw : win.winSize = w)
    (hslots : Holds win.queue w lo fun k => sent[k]?) (hfits : sent.length ≤ lo + w) {n : ℕ}
    (hn : lo + n ≤ sent.length) (hsent : sent.length ≤ 4294967296) (hsound : IndexSound w lo) :
    freeSlots n (i32 lo) win = .error .outOfBounds ∨
      ∃ queue, freeSlots n (i32 lo) win = .ok { win with queue := queue } ∧
        Holds queue w (lo + n) (fun k => sent[k]?) ∧ IndexSound w (lo + n) := by
  induction n generalizing lo win with
  | zero => exact .inr ⟨win.queue, rfl, hslots, hsound⟩
  | succ n ih =>
      rcases tmod_sound (w := w) (by omega) (by omega) hsound with hneg | ⟨hi, hsound'⟩
      · left
        rw [freeSlots, hw, Window.deref_of_neg hneg, error_bind]
      rw [← hw] at hi
      obtain ⟨queue, hstep, hqueue⟩ := freeSlots_step hw hslots (by omega) hfits hi n
      rw [hstep, i32_i32_add]
      have hrest := @ih { win with queue := queue } (lo + 1) hw hqueue (by omega) (by omega) hsound'
      rwa [show lo + 1 + n = lo + (n + 1) by omega] at hrest

namespace Interval

/-- The two reads of `recvRR` on a window with something unacknowledged. -/
theorem recvRR_eq (h : Interval win w lo sent) (hlo : lo < sent.length)
    (hsent : sent.length ≤ 4294967296) (seqNum : UInt32) : recvRR win seqNum =
      if sent.length % 4294967296 < seqNum.toNat then .ok (0, win)
      else if seqNum.toNat < lo then .ok (1, win)
      else (freeSlots (seqNum.toNat - lo) (i32 lo) win) >>= fun win' => .ok (1, { win' with
        lower := ((seqNum.toNat % w : ℕ) : ℤ)
        upper := (i32 (i32 (((seqNum.toNat % w : ℕ) : ℤ) + win'.winSize) - 1)).tmod
          win'.winSize }) := by
  have hcurrent : win.current = (((sent.length - 1) % w : ℕ) : ℤ) := by
    rw [h.current, if_neg (by omega)]
  have hderefCurrent : win.deref win.current = .ok sent[sent.length - 1] := by
    rw [hcurrent]
    exact h.deref_eq (by omega) (by omega)
  have hderefLower : win.deref win.lower = .ok sent[lo] := by
    rw [h.lower]
    exact h.deref_eq (Nat.le_refl lo) hlo
  have hhigh : u32 (i32 (i32 (sent[sent.length - 1].seqNum.toNat) + 1)) =
      sent.length % 4294967296 := by
    rw [h.numbered _ (by omega), u32_i32_add]
    unfold u32
    omega
  have hlow : u32 (i32 (lo : ℤ)) = lo := by
    rw [u32_i32, u32_natCast (by omega)]
  unfold recvRR
  rw [if_neg (by rw [hcurrent]; omega), hderefCurrent, ok_bind, hderefLower, ok_bind, ok_bind]
  simp only [hhigh, h.numbered lo hlo, hlow, Window.slotOf_eq h.winSize, pure_eq_ok]

theorem deref_current_of_empty (h : Interval win w lo sent) (hsent : 0 < sent.length)
    (hlo : lo = sent.length) : win.deref win.current = .error .nullDeref := by
  have hpos := h.pos
  rw [h.current, if_neg (by omega)]
  apply Window.deref_of_null
  rw [← Nat.add_mod_right, h.slot_eq (k := sent.length - 1 + w) (by omega) (by omega),
    List.getElem?_eq_none (by omega)]

theorem recvRR_of_empty (h : Interval win w lo sent) (hsent : 0 < sent.length)
    (hlo : lo = sent.length) (seqNum : UInt32) : recvRR win seqNum = .error .nullDeref := by
  unfold recvRR
  rw [if_neg (by rw [h.current, if_neg (by omega)]; omega), h.deref_current_of_empty hsent hlo,
    error_bind]

theorem recvRR_of_unsent (h : Interval win w lo sent) (hsent : sent.length = 0)
    (seqNum : UInt32) : recvRR win seqNum = .ok (0, win) := by
  unfold recvRR
  rw [if_pos (by rw [h.current, if_pos hsent])]
  rfl

theorem recvRR_of_high (h : Interval win w lo sent) (hlo : lo < sent.length)
    (hsent : sent.length < 4294967296) {seqNum : UInt32} (hseq : sent.length < seqNum.toNat) :
    recvRR win seqNum = .ok (0, win) := by
  rw [h.recvRR_eq hlo (by omega), if_pos (by omega)]

theorem recvRR_of_low (h : Interval win w lo sent) (hlo : lo < sent.length)
    (hsent : sent.length < 4294967296) {seqNum : UInt32} (hseq : seqNum.toNat < lo) :
    recvRR win seqNum = .ok (1, win) := by
  rw [h.recvRR_eq hlo (by omega), if_neg (by omega), if_pos hseq]

theorem moveLower (h : Interval win w lo sent) {queue : ℤ → Option PduS} {s : ℕ}
    (hs : lo ≤ s) (hs' : s ≤ sent.length) (hqueue : Holds queue w s fun k => sent[k]?)
    (upper : ℤ) :
    Interval { win with queue := queue, lower := ((s % w : ℕ) : ℤ), upper := upper } w s sent where
  pos := h.pos
  small := h.small
  winSize := h.winSize
  lower := rfl
  current := h.current
  le := hs'
  fits := by
    have := h.fits
    omega
  slots := hqueue
  numbered := h.numbered

/-- An acknowledgement inside the interval makes its number the lower bound. -/
theorem recvRR_of_mem (h : Interval win w lo sent) (hlo : lo < sent.length)
    {seqNum : UInt32} (hseq : lo ≤ seqNum.toNat) (hseq' : seqNum.toNat ≤ sent.length)
    (hint : seqNum.toNat ≤ 2147483648) (hsent : sent.length < 4294967296) :
    ∃ win', recvRR win seqNum = .ok (1, win') ∧ Interval win' w seqNum.toNat sent ∧
      (seqNum.toNat % w + w ≤ 2147483648 → HasUpper win' w seqNum.toNat) := by
  obtain ⟨queue, hfree, hqueue⟩ := freeSlots_eq (n := seqNum.toNat - lo) h.winSize h.slots h.fits
    (by omega) (by omega)
  rw [Nat.add_sub_cancel' hseq] at hqueue
  refine ⟨_, ?_, h.moveLower hseq hseq' hqueue
    ((i32 (i32 (((seqNum.toNat % w : ℕ) : ℤ) + win.winSize) - 1)).tmod win.winSize),
    fun hfit => Window.tmod_last h.winSize h.pos hfit⟩
  rw [h.recvRR_eq hlo (by omega), if_neg (by omega), if_neg (by omega), hfree, ok_bind]

theorem recvRR_cases (h : Interval win w lo sent) (hw : w ≤ 1073741824) (hlo : lo < sent.length)
    (hsent : sent.length ≤ 2147483647) (seqNum : UInt32) :
    (sent.length < seqNum.toNat ∧ recvRR win seqNum = .ok (0, win)) ∨
      (seqNum.toNat < lo ∧ recvRR win seqNum = .ok (1, win)) ∨
      (lo ≤ seqNum.toNat ∧ seqNum.toNat ≤ sent.length ∧
        ∃ win', recvRR win seqNum = .ok (1, win') ∧ Interval win' w seqNum.toNat sent ∧
          HasUpper win' w seqNum.toNat) := by
  rcases Nat.lt_or_ge sent.length seqNum.toNat with hhigh | hle
  · exact .inl ⟨hhigh, h.recvRR_of_high hlo (by omega) hhigh⟩
  rcases Nat.lt_or_ge seqNum.toNat lo with hlow | hge
  · exact .inr (.inl ⟨hlow, h.recvRR_of_low hlo (by omega) hlow⟩)
  · obtain ⟨win', heq, hint, hup⟩ := h.recvRR_of_mem hlo hge hle (by omega) (by omega)
    have hmod := Nat.mod_lt seqNum.toNat h.pos
    exact .inr (.inr ⟨hge, hle, win', heq, hint, hup (by omega)⟩)

/-- For any numbers, `recvRR` leaves the array, changes nothing, or makes its
argument the lower bound. -/
theorem recvRR_sound (h : Interval win w lo sent) (hlo : lo < sent.length)
    (hsent : sent.length ≤ 4294967296) (hsound : IndexSound w lo) (seqNum : UInt32) :
    recvRR win seqNum = .error .outOfBounds ∨ (∃ code, recvRR win seqNum = .ok (code, win)) ∨
      ∃ win', recvRR win seqNum = .ok (1, win') ∧ Interval win' w seqNum.toNat sent ∧
        IndexSound w seqNum.toNat := by
  have hseq := seqNum.toNat_lt
  have hfits := h.fits
  have hsmall := h.small
  rw [h.recvRR_eq hlo hsent]
  split_ifs with hhigh hlow
  · exact .inr (.inl ⟨0, rfl⟩)
  · exact .inr (.inl ⟨1, rfl⟩)
  · have hle : seqNum.toNat ≤ sent.length := by omega
    have hloop := freeSlots_sound (n := seqNum.toNat - lo) h.winSize h.slots h.fits (by omega)
      hsent hsound
    rw [Nat.add_sub_cancel' (by omega)] at hloop
    rcases hloop with herror | ⟨queue, hfree, hqueue, hsound'⟩
    · rw [herror, error_bind]
      exact .inl rfl
    · rw [hfree, ok_bind]
      exact .inr (.inr ⟨_, rfl, h.moveLower (by omega) hle hqueue _, hsound'⟩)

theorem getLow_eq (h : Interval win w lo sent) : getLow win = .ok sent[lo]? := by
  have hpos := h.pos
  have hle := h.le
  unfold getLow
  rw [h.isWindowEmpty_eq, ok_bind, h.lower, h.slot_eq (Nat.le_refl lo) (by omega)]
  split_ifs with hempty
  · rw [List.getElem?_eq_none (Nat.le_of_eq (of_decide_eq_true hempty).symm)]
    rfl
  · rfl

theorem srej_of_empty (h : Interval win w lo sent) (hsent : 0 < sent.length)
    (hlo : lo = sent.length) (seqNum : UInt32) : srej win seqNum = .error .nullDeref := by
  unfold srej
  rw [if_neg (by rw [h.current, if_neg (by omega)]; omega), h.deref_current_of_empty hsent hlo,
    error_bind]

theorem srej_of_unsent (h : Interval win w lo sent) (hsent : sent.length = 0)
    (seqNum : UInt32) : srej win seqNum = .ok none := by
  unfold srej
  rw [if_pos (by rw [h.current, if_pos hsent])]
  rfl

theorem srej_eq (h : Interval win w lo sent) (hlo : lo < sent.length)
    (hsent : sent.length < 4294967296) (seqNum : UInt32) : srej win seqNum =
      if sent.length < seqNum.toNat then .ok none
      else if seqNum.toNat < lo then .ok none
      else win.slot ((seqNum.toNat % w : ℕ) : ℤ) := by
  have hcurrent : win.current = (((sent.length - 1) % w : ℕ) : ℤ) := by
    rw [h.current, if_neg (by omega)]
  have hderefCurrent : win.deref win.current = .ok sent[sent.length - 1] := by
    rw [hcurrent]
    exact h.deref_eq (by omega) (by omega)
  have hderefLower : win.deref win.lower = .ok sent[lo] := by
    rw [h.lower]
    exact h.deref_eq (Nat.le_refl lo) hlo
  have hhigh : sent[sent.length - 1].seqNum + 1 < seqNum ↔ sent.length < seqNum.toNat := by
    rw [UInt32.lt_iff_toNat_lt, UInt32.toNat_add, h.numbered _ (by omega)]
    have : (1 : UInt32).toNat = 1 := rfl
    omega
  have hlow : seqNum < sent[lo].seqNum ↔ seqNum.toNat < lo := by
    rw [UInt32.lt_iff_toNat_lt, h.numbered lo hlo]
  unfold srej
  rw [if_neg (by rw [hcurrent]; omega), hderefCurrent, ok_bind, hderefLower, ok_bind,
    Window.slotOf_eq h.winSize]
  simp only [hhigh, hlow]
  rfl

/-- A number that is sent and unacknowledged is answered with its packet. -/
theorem srej_of_mem (h : Interval win w lo sent) {seqNum : UInt32} (hseq : lo ≤ seqNum.toNat)
    (hseq' : seqNum.toNat < sent.length) (hsent : sent.length < 4294967296) :
    srej win seqNum = .ok (some sent[seqNum.toNat]) := by
  have hfits := h.fits
  rw [h.srej_eq (by omega) hsent, if_neg (by omega), if_neg (by omega),
    h.slot_eq hseq (by omega), List.getElem?_eq_getElem hseq']

/-- Whatever number is asked for, the answer is a packet of the interval. -/
theorem srej_answer (h : Interval win w lo sent) (hlo : lo < sent.length)
    (hsent : sent.length < 4294967296) (seqNum : UInt32) :
    srej win seqNum = .ok none ∨
      ∃ j, ∃ hj : j < sent.length, srej win seqNum = .ok (some sent[j]) := by
  rw [h.srej_eq hlo hsent]
  split_ifs
  · exact .inl rfl
  · exact .inl rfl
  · obtain ⟨k, hk, hk', hmod⟩ := exists_mod_eq lo (Nat.mod_lt seqNum.toNat h.pos)
    rw [← hmod, h.slot_eq hk hk']
    by_cases hlt : k < sent.length
    · exact .inr ⟨k, hlt, by rw [List.getElem?_eq_getElem hlt]⟩
    · exact .inl (by rw [List.getElem?_eq_none (by omega)])

theorem srej_isOk (h : Interval win w lo sent) (hlo : lo < sent.length) (seqNum : UInt32) :
    ∃ answer, srej win seqNum = .ok answer := by
  have hcurrent : win.current = (((sent.length - 1) % w : ℕ) : ℤ) := by
    rw [h.current, if_neg (by omega)]
  unfold srej
  rw [if_neg (by rw [hcurrent]; omega), hcurrent, h.deref_eq (by omega) (by omega), ok_bind,
    h.lower, h.deref_eq (Nat.le_refl lo) hlo, ok_bind, Window.slotOf_eq h.winSize,
    Window.slot_natCast h.winSize (Nat.mod_lt _ h.pos)]
  split_ifs
  · exact ⟨_, rfl⟩
  · exact ⟨_, rfl⟩
  · exact ⟨_, rfl⟩

end Interval
end
end SelRej

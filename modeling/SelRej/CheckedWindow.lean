import SelRej.CheckedInt
import SelRej.ServerCalls

/-!
# The arithmetic of the server window

`serverSent` and `recvRR` once more, with every signed expression checked for
overflow; `srej` and `getLow` have none. Sequence numbers are `uint32_t`s but
pass through `int` locals in `recvRR`: the number after the last one sent, the
loop counter, and the sum that gives `upper`. `InRange` is the condition on a
call under which none of them overflows. In the runs whose calls meet it the
lower bound stays below two to the 31, every index is one of the array, and an
RR frees the slots of the numbers that it acknowledges.
-/
namespace SelRej
open CInt CircularArray PartialRun

namespace Checked

def serverSent (win : Window) (packet : PduS) : Except (Fault Halt) (ℕ × Window) := do
  if ← unchecked (isWindowFull win) then
    return (0, win)
  let next ← checked (win.current + 1)
  if win.slotOf packet.seqNum ≠ next.tmod win.winSize then
    return (0, win)
  let next ← checked (win.current + 1)
  let win := { win with current := next.tmod win.winSize }
  let win ← unchecked (win.store win.current (some packet))
  return (1, win)

def freeSlots : ℕ → ℤ → Window → Except (Fault Halt) Window
  | 0, _, win => pure win
  | n + 1, i, win => do
      let _ ← unchecked (win.deref (i.tmod win.winSize))
      let win ← unchecked (win.store (i.tmod win.winSize) none)
      let i ← checked (i + 1)
      freeSlots n i win

def recvRR (win : Window) (seqNum : UInt32) : Except (Fault Halt) (ℕ × Window) := do
  if win.current = -1 then
    return (0, win)
  -- a conversion of an unsigned value to `int` is no overflow
  let curNum := i32 (← unchecked (win.deref win.current)).seqNum.toNat
  let next ← checked (curNum + 1)
  if u32 next < seqNum.toNat then
    return (0, win)
  let lowNum := i32 (← unchecked (win.deref win.lower)).seqNum.toNat
  if seqNum.toNat < u32 lowNum then
    return (1, win)
  let newLower := win.slotOf seqNum
  let oldLowSeq := i32 (← unchecked (win.deref win.lower)).seqNum.toNat
  let win ← freeSlots (seqNum.toNat - u32 oldLowSeq) oldLowSeq win
  let sum ← checked (newLower + win.winSize)
  let last ← checked (sum - 1)
  return (1, { win with lower := newLower, upper := last.tmod win.winSize })

theorem checks_serverSent (win : Window) (packet : PduS) :
    Checks (serverSent win packet) (SelRej.serverSent win packet) := by
  unfold serverSent SelRej.serverSent
  apply Checks.bind (checks_unchecked _)
  intro full
  apply checks_ite (checks_ok _)
  apply checks_int
  apply checks_ite (checks_ok _)
  apply checks_int
  exact Checks.bind (checks_unchecked _) fun _ => checks_ok _

theorem checks_freeSlots (n : ℕ) (i : ℤ) (win : Window) :
    Checks (freeSlots n i win) (SelRej.freeSlots n i win) := by
  induction n generalizing i win with
  | zero => exact checks_ok win
  | succ n ih =>
      unfold freeSlots SelRej.freeSlots
      apply Checks.bind (checks_unchecked _)
      intro _
      apply Checks.bind (checks_unchecked _)
      intro win'
      apply checks_int
      exact ih _ _

theorem checks_recvRR (win : Window) (seqNum : UInt32) :
    Checks (recvRR win seqNum) (SelRej.recvRR win seqNum) := by
  unfold recvRR SelRej.recvRR
  apply checks_ite (checks_ok _)
  apply Checks.bind (checks_unchecked _)
  intro cur
  apply checks_int
  apply checks_ite (checks_ok _)
  apply Checks.bind (checks_unchecked _)
  intro low
  apply checks_ite (checks_ok _)
  apply Checks.bind (checks_unchecked _)
  intro low'
  apply Checks.bind (checks_freeSlots _ _ _)
  intro win'
  apply checks_int
  apply checks_int
  exact checks_ok _

section
variable {win : Window} {w lo : ℕ} {sent : List PduS}

/-- An index is never the largest `int`, so the next one is an `int`. -/
theorem serverSent_ne_overflow (h : Interval win w lo sent) (packet : PduS) :
    serverSent win packet ≠ .error .overflow := by
  have hpos := h.pos
  have hsmall := h.small
  have hrange : -2147483648 ≤ win.current + 1 ∧ win.current + 1 < 2147483648 := by
    have hmod := Nat.mod_lt (sent.length - 1) hpos
    rw [h.current]
    split <;> omega
  unfold serverSent
  rw [checked_of_range hrange.1 hrange.2]
  apply bind_ne_overflow (unchecked_ne_overflow _)
  intro full
  split
  · exact fun he => by cases he
  rw [ok_bind]
  split
  · exact fun he => by cases he
  rw [ok_bind]
  exact bind_ne_overflow (unchecked_ne_overflow _) fun win' he => by cases he

theorem freeSlots_step (hw : win.winSize = w) (hslots : Holds win.queue w lo fun k => sent[k]?)
    (hlo : lo < sent.length) (hfits : sent.length ≤ lo + w) (n : ℕ) :
    ∃ queue, freeSlots (n + 1) lo win =
        (checked ((lo : ℤ) + 1) >>= fun i => freeSlots n i { win with queue := queue }) ∧
      Holds queue w (lo + 1) fun k => sent[k]? := by
  have hpos : 0 < w := by omega
  have hi : (lo : ℤ).tmod win.winSize = ((lo % w : ℕ) : ℤ) := by
    rw [hw, natCast_tmod]
  refine ⟨Function.update win.queue ((lo % w : ℕ) : ℤ) none, ?_, slots_free hslots hpos hfits⟩
  rw [freeSlots, hi, deref_lowest hw hslots hpos hlo, unchecked_ok, ok_bind,
    Window.store_natCast hw (Nat.mod_lt lo hpos), unchecked_ok, ok_bind]

/-- The loop counter overflows when it comes to two to the 31, and not before. -/
theorem freeSlots_overflow_iff (hw : win.winSize = w)
    (hslots : Holds win.queue w lo fun k => sent[k]?) (hfits : sent.length ≤ lo + w) {n : ℕ}
    (hn : lo + n ≤ sent.length) (hlo : lo < 2147483648) :
    freeSlots n lo win = .error .overflow ↔ 2147483648 ≤ lo + n := by
  induction n generalizing lo win with
  | zero => exact iff_of_false (fun he => by cases he) (by omega)
  | succ n ih =>
      obtain ⟨queue, hstep, hqueue⟩ := freeSlots_step hw hslots (by omega) hfits n
      rw [hstep]
      by_cases hlast : lo + 1 = 2147483648
      · rw [checked_of_le (by omega), error_bind]
        exact iff_of_true rfl (by omega)
      · rw [checked_of_range (by omega) (by omega), ok_bind]
        have hrest := @ih { win with queue := queue } (lo + 1) hw hqueue (by omega) (by omega)
          (by omega)
        rw [show ((lo : ℤ) + 1) = ((lo + 1 : ℕ) : ℤ) by omega, hrest]
        omega

theorem recvRR_eq (h : Interval win w lo sent) (hlo : lo < sent.length) (hsmall : lo < 2147483648)
    (seqNum : UInt32) : recvRR win seqNum =
      checked (i32 ((sent.length - 1 : ℕ) : ℤ) + 1) >>= fun next =>
        if u32 next < seqNum.toNat then .ok (0, win)
        else if seqNum.toNat < lo then .ok (1, win)
        else freeSlots (seqNum.toNat - lo) lo win >>= fun win' =>
          checked (((seqNum.toNat % w : ℕ) : ℤ) + win'.winSize) >>= fun sum =>
            checked (sum - 1) >>= fun last => .ok (1, { win' with
              lower := ((seqNum.toNat % w : ℕ) : ℤ), upper := last.tmod win'.winSize }) := by
  have hcurrent : win.current = (((sent.length - 1) % w : ℕ) : ℤ) := by
    rw [h.current, if_neg (by omega)]
  have hderefCurrent : win.deref win.current = .ok sent[sent.length - 1] := by
    rw [hcurrent]
    exact h.deref_eq (by omega) (by omega)
  have hderefLower : win.deref win.lower = .ok sent[lo] := by
    rw [h.lower]
    exact h.deref_eq (Nat.le_refl lo) hlo
  unfold recvRR
  rw [if_neg (by rw [hcurrent]; omega), hderefCurrent, hderefLower]
  simp only [unchecked_ok, ok_bind, h.numbered _ (show sent.length - 1 < sent.length by omega),
    h.numbered lo hlo, Window.slotOf_eq h.winSize, pure_eq_ok, i32_natCast hsmall,
    u32_natCast (show lo < 4294967296 by omega)]

theorem next_eq {n : ℕ} (hpos : 0 < n) (hn : n < 4294967296) (hne : n ≠ 2147483648) :
    ∃ next : ℤ, (checked (i32 ((n - 1 : ℕ) : ℤ) + 1) : Except (Fault Halt) ℤ) = .ok next ∧
      u32 next = n := by
  by_cases hlt : n < 2147483648
  · rw [i32_natCast (by omega), checked_of_range (by omega) (by omega)]
    exact ⟨_, rfl, by unfold u32; omega⟩
  · rw [i32_natCast_of_le (by omega) (by omega), checked_of_range (by omega) (by omega)]
    exact ⟨_, rfl, by unfold u32; omega⟩

theorem recvRR_overflow_iff (h : Interval win w lo sent) (hlo : lo < sent.length)
    (hsmall : lo < 2147483648) (hsent : sent.length < 4294967296) (seqNum : UInt32) :
    recvRR win seqNum = .error .overflow ↔ sent.length = 2147483648 ∨
      (lo ≤ seqNum.toNat ∧ seqNum.toNat ≤ sent.length ∧
        (2147483648 ≤ seqNum.toNat ∨ 2147483648 ≤ seqNum.toNat % w + w)) := by
  have hmod := Nat.mod_lt seqNum.toNat h.pos
  have hw := h.winSize
  rw [recvRR_eq h hlo hsmall]
  by_cases hlast : sent.length = 2147483648
  · rw [hlast, i32_natCast (by decide), checked_of_le (by decide), error_bind]
    exact iff_of_true rfl (.inl rfl)
  obtain ⟨next, hnext, hu32⟩ := next_eq (show 0 < sent.length by omega) hsent hlast
  rw [hnext, ok_bind, hu32]
  by_cases hhigh : sent.length < seqNum.toNat
  · rw [if_pos hhigh]
    exact iff_of_false (fun he => by cases he) (by omega)
  rw [if_neg hhigh]
  by_cases hlow : seqNum.toNat < lo
  · rw [if_pos hlow]
    exact iff_of_false (fun he => by cases he) (by omega)
  rw [if_neg hlow]
  have hloop := freeSlots_overflow_iff h.winSize h.slots h.fits (n := seqNum.toNat - lo)
    (by omega) hsmall
  rw [Nat.add_sub_cancel' (by omega)] at hloop
  by_cases hbig : 2147483648 ≤ seqNum.toNat
  · rw [hloop.mpr hbig, error_bind]
    exact iff_of_true rfl (.inr ⟨by omega, by omega, .inl hbig⟩)
  obtain ⟨queue, hfree, _⟩ := freeSlots_eq (n := seqNum.toNat - lo) h.winSize h.slots h.fits
    (by omega) (by omega)
  rw [i32_natCast hsmall] at hfree
  rw [(checks_freeSlots _ _ _).eq_unchecked (fun he => hbig (hloop.mp he)), hfree, unchecked_ok,
    ok_bind]
  dsimp only
  by_cases hsum : 2147483648 ≤ seqNum.toNat % w + w
  · rw [checked_of_le (by omega), error_bind]
    exact iff_of_true rfl (.inr ⟨by omega, by omega, .inr hsum⟩)
  · rw [checked_of_range (by omega) (by omega), ok_bind, checked_of_range (by omega) (by omega),
      ok_bind]
    exact iff_of_false (fun he => by cases he) (by omega)

end
end Checked

namespace ServerRun
variable {r r' : ServerRun} {w lo : ℕ} {call : ServerCall}

/-- A call with its signed expressions checked. -/
def performChecked (r : ServerRun) : ServerCall → Except (Fault Halt) ServerRun
  | .serverSent packet => do
      let (_, win) ← Checked.serverSent r.win packet
      return ⟨win, r.sent ++ [packet]⟩
  | .recvRR seqNum => do
      let (_, win) ← Checked.recvRR r.win seqNum
      return { r with win }
  | .srej seqNum => unchecked (r.perform (.srej seqNum))
  | .getLow => unchecked (r.perform .getLow)

/-- No expression of the call overflows, and no index is outside the array. -/
def StaysInRange (r : ServerRun) (call : ServerCall) : Prop :=
  r.performChecked call ≠ .error .overflow ∧ r.performChecked call ≠ .error (.halt .outOfBounds)

/-- An RR with something unacknowledged, the lowest of it being `low`, does not
come while two to the 31 packets are sent; and if it is valid, its number and
the sum of its index and the window size are `int`s. -/
def InRange (w : ℕ) (r : ServerRun) : ServerCall → Prop
  | .recvRR seqNum => ∀ low, SelRej.getLow r.win = .ok (some low) →
      r.sent.length ≠ 2147483648 ∧
        (low.seqNum.toNat ≤ seqNum.toNat → seqNum.toNat ≤ r.sent.length →
          seqNum.toNat < 2147483648 ∧ seqNum.toNat % w + w < 2147483648)
  | _ => True

instance decidableInRange (w : ℕ) (r : ServerRun) : ∀ call, Decidable (InRange w r call)
  | .recvRR seqNum => decidable_of_iff
      (∀ low ∈ (SelRej.getLow r.win).toOption.join, r.sent.length ≠ 2147483648 ∧
        (low.seqNum.toNat ≤ seqNum.toNat → seqNum.toNat ≤ r.sent.length →
          seqNum.toNat < 2147483648 ∧ seqNum.toNat % w + w < 2147483648))
      (forall_congr' fun low => by
        rw [Option.mem_def, Option.join_eq_some_iff, toOption_eq_some])
  | .serverSent _ | .srej _ | .getLow => inferInstanceAs (Decidable True)

/-- The slots of the numbers from `lo` to `s - 1` are NULL, and no other has changed. -/
def Frees (win win' : Window) (w lo s : ℕ) : Prop :=
  (∀ i, lo ≤ i → i < s → win'.queue ((i % w : ℕ) : ℤ) = none) ∧
    ∀ j : ℕ, j < w → (∀ i, lo ≤ i → i < s → i % w ≠ j) → win'.queue j = win.queue j

def Ranged (w : ℕ) (r : ServerRun) : Prop :=
  ∃ lo, Interval r.win w lo r.sent ∧ HasUpper r.win w lo ∧ lo < 2147483648

theorem ranged_start (hpos : 0 < w) (hsmall : w < 2147483648) : Ranged w (start w) :=
  ⟨0, (interval_initWindow hpos hsmall).1, (interval_initWindow hpos hsmall).2, by decide⟩

theorem length_lt_of_small (h : Interval r.win w lo r.sent) (hlo : lo < 2147483648) :
    r.sent.length < 4294967295 := by
  have hfits := h.fits
  have hsmall := h.small
  omega

theorem getLow_iff (h : Interval r.win w lo r.sent) (low : PduS) :
    SelRej.getLow r.win = .ok (some low) ↔ ∃ hlt : lo < r.sent.length, low = r.sent[lo] := by
  rw [h.getLow_eq, Except.ok.injEq, List.getElem?_eq_some_iff]
  constructor
  · rintro ⟨hlt, heq⟩
    exact ⟨hlt, heq.symm⟩
  · rintro ⟨hlt, heq⟩
    exact ⟨hlt, heq.symm⟩

theorem inRange_recvRR_iff (h : Interval r.win w lo r.sent) (seqNum : UInt32) :
    InRange w r (.recvRR seqNum) ↔ (lo < r.sent.length → r.sent.length ≠ 2147483648 ∧
      (lo ≤ seqNum.toNat → seqNum.toNat ≤ r.sent.length →
        seqNum.toNat < 2147483648 ∧ seqNum.toNat % w + w < 2147483648)) := by
  simp only [InRange, getLow_iff h]
  constructor
  · intro hin hlt
    have hlow := hin r.sent[lo] ⟨hlt, rfl⟩
    rwa [h.numbered lo hlt] at hlow
  · rintro hin low ⟨hlt, rfl⟩
    rw [h.numbered lo hlt]
    exact hin hlt

theorem recvRR_in_range (h : Interval r.win w lo r.sent) (hsmall : lo < 2147483648)
    (hlt : lo < r.sent.length) {seqNum : UInt32}
    (hin : InRange w r (.recvRR seqNum)) :
    ((r.sent.length < seqNum.toNat ∨ seqNum.toNat < lo) ∧
        ∃ code, SelRej.recvRR r.win seqNum = .ok (code, r.win)) ∨
      (lo ≤ seqNum.toNat ∧ seqNum.toNat ≤ r.sent.length ∧ seqNum.toNat < 2147483648 ∧
        ∃ win', SelRej.recvRR r.win seqNum = .ok (1, win') ∧
          Interval win' w seqNum.toNat r.sent ∧ HasUpper win' w seqNum.toNat) := by
  have hlen := length_lt_of_small h hsmall
  obtain ⟨_, hvalid⟩ := (inRange_recvRR_iff h seqNum).mp hin hlt
  rcases Nat.lt_or_ge r.sent.length seqNum.toNat with hhigh | hle
  · exact .inl ⟨.inl hhigh, 0, h.recvRR_of_high hlt (by omega) hhigh⟩
  rcases Nat.lt_or_ge seqNum.toNat lo with hlow | hge
  · exact .inl ⟨.inr hlow, 1, h.recvRR_of_low hlt (by omega) hlow⟩
  · obtain ⟨hnum, hsum⟩ := hvalid hge hle
    obtain ⟨win', heq, hint, hupper⟩ := h.recvRR_of_mem hlt hge hle (by omega) (by omega)
    exact .inr ⟨hge, hle, hnum, win', heq, hint, hupper (by omega)⟩

theorem ranged_step (h : Ranged w r) (hsent : AsSent r call) (hin : InRange w r call)
    (hstep : r.step call = some r') : Ranged w r' := by
  obtain ⟨lo, hint, hup, hsmall⟩ := h
  have hlen := length_lt_of_small hint hsmall
  cases step_changes hint (by omega) hsent hstep with
  | sends hint' hupper => exact ⟨lo, hint', hupper.trans hup, hsmall⟩
  | @obeys seqNum code _ hlt hge hle hrecv =>
      obtain ⟨_, hvalid⟩ := (inRange_recvRR_iff hint seqNum).mp hin hlt
      obtain ⟨hnum, hsum⟩ := hvalid hge hle
      obtain ⟨win', hrecv', hint', hup'⟩ := hint.recvRR_of_mem hlt hge hle (by omega) (by omega)
      rw [hrecv] at hrecv'
      cases hrecv'
      exact ⟨seqNum.toNat, hint', hup' (by omega), hnum⟩
  | ignores _ => exact ⟨lo, hint, hup, hsmall⟩
  | answers _ => exact ⟨lo, hint, hup, hsmall⟩
  | reads => exact ⟨lo, hint, hup, hsmall⟩

theorem performChecked_recvRR {seqNum : UInt32}
    (h : Checked.recvRR r.win seqNum ≠ .error .overflow) :
    r.performChecked (.recvRR seqNum) = unchecked (r.perform (.recvRR seqNum)) := by
  have hchecked := (Checked.checks_recvRR r.win seqNum).eq_unchecked h
  simp only [performChecked, perform, hchecked]
  cases SelRej.recvRR r.win seqNum with
  | error e => rfl
  | ok answer => rfl

theorem performChecked_recvRR_overflow {seqNum : UInt32}
    (h : Checked.recvRR r.win seqNum = .error .overflow) :
    r.performChecked (.recvRR seqNum) = .error .overflow := by
  simp only [performChecked, h, error_bind]

theorem performChecked_serverSent {packet : PduS}
    (h : Checked.serverSent r.win packet ≠ .error .overflow) :
    r.performChecked (.serverSent packet) = unchecked (r.perform (.serverSent packet)) := by
  have hchecked := (Checked.checks_serverSent r.win packet).eq_unchecked h
  simp only [performChecked, perform, hchecked]
  cases SelRej.serverSent r.win packet with
  | error e => rfl
  | ok answer => rfl

/-- A call whose expressions do not overflow and that stays inside the array. -/
theorem staysInRange_of_perform (h : r.performChecked call = unchecked (r.perform call))
    (hin : r.perform call ≠ .error .outOfBounds) : r.StaysInRange call := by
  rw [StaysInRange, h]
  refine ⟨unchecked_ne_overflow _, fun he => hin ?_⟩
  cases hp : r.perform call with
  | error e =>
      rw [hp, unchecked_error] at he
      cases he
      rfl
  | ok r₁ =>
      rw [hp, unchecked_ok] at he
      cases he

theorem bind_ne_outOfBounds {α β : Type} {x : Except Halt α} {f : α → Except Halt β}
    (hx : x ≠ .error .outOfBounds) (hf : ∀ a, f a ≠ .error .outOfBounds) :
    x >>= f ≠ .error .outOfBounds := by
  cases x with
  | error e =>
      rw [error_bind]
      intro he
      cases he
      exact hx rfl
  | ok a =>
      rw [ok_bind]
      exact hf a

theorem srej_ne_outOfBounds (h : Interval r.win w lo r.sent) (seqNum : UInt32) :
    SelRej.srej r.win seqNum ≠ .error .outOfBounds := by
  have hle := h.le
  rcases Nat.eq_zero_or_pos r.sent.length with hzero | hpos
  · rw [h.srej_of_unsent hzero]
    exact fun he => by cases he
  rcases Nat.lt_or_eq_of_le hle with hlt | heq
  · obtain ⟨answer, hanswer⟩ := h.srej_isOk hlt seqNum
    rw [hanswer]
    exact fun he => by cases he
  · rw [h.srej_of_empty hpos heq]
    exact fun he => by cases he

theorem staysInRange_recvRR {seqNum : UInt32} (h : Checked.recvRR r.win seqNum ≠ .error .overflow)
    (hin : SelRej.recvRR r.win seqNum ≠ .error .outOfBounds) : r.StaysInRange (.recvRR seqNum) :=
  staysInRange_of_perform (performChecked_recvRR h)
    (bind_ne_outOfBounds hin fun _ he => by cases he)

theorem recvRR_staysInRange_iff (h : Interval r.win w lo r.sent) (hsmall : lo < 2147483648)
    (seqNum : UInt32) : r.StaysInRange (.recvRR seqNum) ↔ InRange w r (.recvRR seqNum) := by
  have hle := h.le
  have hlen := length_lt_of_small h hsmall
  rcases Nat.eq_zero_or_pos r.sent.length with hzero | hpos
  · have hunsent : Checked.recvRR r.win seqNum = .ok (0, r.win) := by
      unfold Checked.recvRR
      rw [if_pos (by rw [h.current, if_pos hzero])]
      rfl
    refine iff_of_true ?_ ((inRange_recvRR_iff h seqNum).mpr fun hlt => by omega)
    refine staysInRange_recvRR (by rw [hunsent]; exact nofun) ?_
    rw [h.recvRR_of_unsent hzero]
    exact nofun
  rcases Nat.lt_or_eq_of_le hle with hlt | heq
  · have hoverflow := Checked.recvRR_overflow_iff h hlt hsmall (by omega) seqNum
    by_cases hover : Checked.recvRR r.win seqNum = .error .overflow
    · refine iff_of_false (fun hstays => hstays.1 (performChecked_recvRR_overflow hover)) ?_
      intro hin
      have hcond := (inRange_recvRR_iff h seqNum).mp hin hlt
      rw [hoverflow] at hover
      omega
    · have hin : InRange w r (.recvRR seqNum) := by
        rw [inRange_recvRR_iff h]
        rw [hoverflow] at hover
        omega
      refine iff_of_true (staysInRange_recvRR hover ?_) hin
      rcases recvRR_in_range h hsmall hlt hin with ⟨_, code, heq⟩ | ⟨_, _, _, win', heq, _⟩
      · rw [heq]
        exact nofun
      · rw [heq]
        exact nofun
  · -- everything is acknowledged: `recvRR` stops at a NULL pointer first
    have hnull : Checked.recvRR r.win seqNum = .error (.halt .nullDeref) := by
      unfold Checked.recvRR
      rw [if_neg (by rw [h.current, if_neg (by omega)]; omega), h.deref_current_of_empty hpos heq,
        unchecked_error, error_bind]
    refine iff_of_true ?_ ((inRange_recvRR_iff h seqNum).mpr fun hlt => by omega)
    refine staysInRange_recvRR (by rw [hnull]; exact nofun) ?_
    rw [h.recvRR_of_empty hpos heq]
    exact nofun

theorem staysInRange_iff (h : Ranged w r) (hsent : AsSent r call) :
    r.StaysInRange call ↔ InRange w r call := by
  obtain ⟨lo, hint, hup, hsmall⟩ := h
  have hlen := length_lt_of_small hint hsmall
  cases call with
  | serverSent packet =>
      refine iff_of_true (staysInRange_of_perform
        (performChecked_serverSent (Checked.serverSent_ne_overflow hint packet)) ?_) trivial
      obtain ⟨win', heq, _⟩ := hint.serverSent_eq hsent.1
        (by rw [hsent.2, Nat.mod_eq_of_lt (by omega)])
      exact bind_ne_outOfBounds (by rw [heq]; exact nofun) fun _ => nofun
  | recvRR seqNum => exact recvRR_staysInRange_iff hint hsmall seqNum
  | srej seqNum =>
      refine iff_of_true (staysInRange_of_perform rfl ?_) trivial
      exact bind_ne_outOfBounds (srej_ne_outOfBounds hint seqNum) fun _ => nofun
  | getLow =>
      refine iff_of_true (staysInRange_of_perform rfl ?_) trivial
      exact bind_ne_outOfBounds (by rw [hint.getLow_eq]; exact nofun) fun _ => nofun

theorem frees_of_interval {win win' : Window} {sent : List PduS} {s : ℕ}
    (h : Interval win w lo sent) (h' : Interval win' w s sent) (hs : lo ≤ s) :
    Frees win win' w lo s := by
  have hfits := h.fits
  constructor
  · intro i hi hi'
    have hle := h'.le
    rw [← Nat.add_mod_right, h'.queue_eq (k := i + w) (by omega) (by omega),
      List.getElem?_eq_none (by omega)]
  · intro j hj hne
    obtain ⟨k, hk, hk', rfl⟩ := exists_mod_eq lo hj
    have hks : s ≤ k := by
      by_contra hlt
      exact hne k hk (by omega) rfl
    rw [h.queue_eq hk hk', h'.queue_eq hks (by omega)]

/-- In every run whose calls are in range, the next call overflows nothing and
stays inside the array exactly when it is in range as well, and a valid RR frees
the slots from the lowest number to its own. -/
theorem arithmetic_in_range_iff {calls : List ServerCall} (hpos : 1 ≤ w)
    (hsmall : w < 2147483648) (hrun : run step (start w) calls = some r)
    (hcalls : Guarded step (fun r call => AsSent r call ∧ InRange w r call) (start w) calls) :
    (∀ call, AsSent r call → (r.StaysInRange call ↔ InRange w r call)) ∧
      ∀ low seqNum, SelRej.getLow r.win = .ok (some low) → low.seqNum.toNat ≤ seqNum.toNat →
        seqNum.toNat ≤ r.sent.length → InRange w r (.recvRR seqNum) →
        ∃ win', Checked.recvRR r.win seqNum = .ok (1, win') ∧
          SelRej.recvRR r.win seqNum = .ok (1, win') ∧
          Frees r.win win' w low.seqNum.toNat seqNum.toNat := by
  have h : Ranged w r :=
    guarded_induct (fun _ _ _ hs hok hstep => ranged_step hs hok.1 hok.2 hstep)
      (ranged_start hpos hsmall) hcalls hrun
  refine ⟨fun call hsent => staysInRange_iff h hsent, ?_⟩
  intro low seqNum hlow hge hle hin
  obtain ⟨lo, hint, _, hlo⟩ := h
  obtain ⟨hlt, rfl⟩ := (getLow_iff hint low).mp hlow
  rw [hint.numbered lo hlt] at hge ⊢
  have hstays := (recvRR_staysInRange_iff hint hlo seqNum).mpr hin
  have hchecked := (Checked.checks_recvRR r.win seqNum).eq_unchecked
    fun hover => hstays.1 (performChecked_recvRR_overflow hover)
  rcases recvRR_in_range hint hlo hlt hin with ⟨hout, _⟩ | ⟨_, _, _, win', heq, hint', _⟩
  · omega
  · exact ⟨win', by rw [hchecked, heq, unchecked_ok], heq, frees_of_interval hint hint' hge⟩

theorem arithmetic_in_range_iff_reusedSlot : ∃ r, run step (start 2) reusedSlot = some r ∧
    ∀ call, AsSent r call → (r.StaysInRange call ↔ InRange 2 r call) := by
  obtain ⟨r, hr⟩ := exists_run_reusedSlot
  exact ⟨r, hr, (arithmetic_in_range_iff (by decide) (by decide) hr (by decide +kernel)).1⟩

/-- With the largest window, RR 1 makes `newLower + win.winSize` two to the 31. -/
theorem largest_window_overflows : ∃ r,
    run step (start 2147483647) [.serverSent firstPdu] = some r ∧
      Guarded step (fun r call => AsSent r call) (start 2147483647) [.serverSent firstPdu] ∧
      ¬r.StaysInRange (.recvRR 1) := by
  obtain ⟨r, hrun, hcall⟩ := Option.map_eq_some_iff.mp
    (show (run step (start 2147483647) [.serverSent firstPdu]).map
      (fun r => (r.performChecked (.recvRR 1)).map fun _ => ()) =
        some (.error .overflow) by decide +kernel)
  refine ⟨r, hrun, ⟨⟨by decide +kernel, rfl⟩, fun _ _ => trivial⟩, fun hstays => hstays.1 ?_⟩
  cases hperform : r.performChecked (.recvRR 1) with
  | error e =>
      rw [hperform] at hcall
      cases hcall
      rfl
  | ok r₁ =>
      rw [hperform] at hcall
      cases hcall

end ServerRun
end SelRej

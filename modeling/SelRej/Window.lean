import Mathlib.Logic.Function.Basic
import SelRej.Emit
import SelRej.Pdu

/-!
# The sliding window

The functions of `window.c`. The global `win` is passed as an argument and
returned. Slots are read and written through `slot`, `deref` and `store`,
which stop the process at an index outside `win.queue` or at a NULL pointer.
Indices and sizes are `int`s: every sum is reduced by `i32`, and `%` is the
truncating remainder. Sequence numbers are `uint32_t`s; `seqNum % winSize` is
computed on unsigned operands, which for a positive `winSize` is `slotOf`.
-/
namespace SelRej
open CInt

structure Window where
  queue : ℤ → Option PduS
  winSize : ℤ
  lower : ℤ
  upper : ℤ
  current : ℤ
  lastSeq : UInt32
  firstSeq : UInt32

namespace Window

/-- The pointer `win.queue[i]`. -/
def slot (win : Window) (i : ℤ) : Except Halt (Option PduS) :=
  if 0 ≤ i ∧ i < win.winSize then .ok (win.queue i) else .error .outOfBounds

/-- The struct `*win.queue[i]`. -/
def deref (win : Window) (i : ℤ) : Except Halt PduS := do
  match ← win.slot i with
  | some packet => pure packet
  | none => throw .nullDeref

/-- `win.queue[i] = packet`. -/
def store (win : Window) (i : ℤ) (packet : Option PduS) : Except Halt Window :=
  if 0 ≤ i ∧ i < win.winSize then
    .ok { win with queue := Function.update win.queue i packet }
  else .error .outOfBounds

def slotOf (win : Window) (seqNum : UInt32) : ℤ := (seqNum.toNat : ℤ).tmod win.winSize

section
variable {win : Window} {w i : ℕ}

theorem slot_natCast (hw : win.winSize = w) (hi : i < w) : win.slot i = .ok (win.queue i) :=
  if_pos ⟨by omega, by omega⟩

theorem slot_of_neg {i : ℤ} (hi : i < 0) : win.slot i = .error .outOfBounds :=
  if_neg (by omega)

theorem store_natCast (hw : win.winSize = w) (hi : i < w) (packet : Option PduS) :
    win.store i packet = .ok { win with queue := Function.update win.queue i packet } :=
  if_pos ⟨by omega, by omega⟩

theorem deref_of_slot {i : ℤ} {packet : PduS} (h : win.slot i = .ok (some packet)) :
    win.deref i = .ok packet := by
  unfold deref
  rw [h, ok_bind]
  rfl

theorem deref_of_null {i : ℤ} (h : win.slot i = .ok none) :
    win.deref i = .error .nullDeref := by
  unfold deref
  rw [h, ok_bind]
  rfl

theorem deref_of_neg {i : ℤ} (hi : i < 0) : win.deref i = .error .outOfBounds := by
  unfold deref
  rw [slot_of_neg hi, error_bind]

theorem slotOf_eq (hw : win.winSize = w) (seqNum : UInt32) :
    win.slotOf seqNum = ((seqNum.toNat % w : ℕ) : ℤ) := by
  rw [slotOf, hw, natCast_tmod]

theorem tmod_succ (hw : win.winSize = w) (hpos : 0 < w) (hsmall : w < 2147483648) (k : ℕ) :
    (i32 (((k % w : ℕ) : ℤ) + 1)).tmod win.winSize = (((k + 1) % w : ℕ) : ℤ) := by
  have hk := Nat.mod_lt k hpos
  rw [i32_of_range (by omega) (by omega), hw, ← Nat.mod_add_mod]
  exact natCast_tmod (k % w + 1) w

/-- The last index of the interval that starts at `lo`, when the sum that
computes it stays an `int`. -/
theorem tmod_last (hw : win.winSize = w) (hpos : 0 < w) {lo : ℕ}
    (hfit : lo % w + w ≤ 2147483648) :
    (i32 (i32 (((lo % w : ℕ) : ℤ) + win.winSize) - 1)).tmod win.winSize =
      (((lo + w - 1) % w : ℕ) : ℤ) := by
  have hlo := Nat.mod_lt lo hpos
  have hsum : i32 (i32 (((lo % w : ℕ) : ℤ) + w) - 1) = ((lo % w + w - 1 : ℕ) : ℤ) := by
    unfold i32
    rw [Int.bmod_def, Int.bmod_def]
    split <;> split <;> omega
  rw [hw, hsum, natCast_tmod, Nat.add_sub_assoc hpos, Nat.add_sub_assoc hpos, Nat.mod_add_mod]

end
end Window

/-- The zero-initialised global before `initWindow`. -/
def noWindow : Window := ⟨fun _ => none, 0, 0, 0, 0, 0, 0⟩

/-- `malloc` is taken to succeed. -/
def initWindow (win : Window) (windowSize : ℤ) : ℕ × Window :=
  if windowSize < 1 then (0, win)
  else (1, { win with
    queue := fun _ => none
    winSize := windowSize
    lower := 0
    upper := i32 (windowSize - 1)
    current := -1 })

def isWindowFull (win : Window) : Except Halt Bool := do
  return (← win.slot win.upper).isSome

def isWindowEmpty (win : Window) : Except Halt Bool := do
  return (← win.slot win.lower).isNone

def serverSent (win : Window) (packet : PduS) : Except Halt (ℕ × Window) := do
  if ← isWindowFull win then
    return (0, win)
  if win.slotOf packet.seqNum ≠ (i32 (win.current + 1)).tmod win.winSize then
    return (0, win)
  let win := { win with current := (i32 (win.current + 1)).tmod win.winSize }
  let win ← win.store win.current (some packet)
  return (1, win)

/-- The loop of `recvRR` with `n` rounds left: `i < seqNum` compares unsigned
values and `i++` adds one to the unsigned value of `i`, so the loop makes
`seqNum - oldLowSeq` rounds. `freePDU` dereferences its argument. -/
def freeSlots : ℕ → ℤ → Window → Except Halt Window
  | 0, _, win => pure win
  | n + 1, i, win => do
      let _ ← win.deref (i.tmod win.winSize)
      let win ← win.store (i.tmod win.winSize) none
      freeSlots n (i32 (i + 1)) win

def recvRR (win : Window) (seqNum : UInt32) : Except Halt (ℕ × Window) := do
  if win.current = -1 then
    return (0, win)
  let curNum := i32 (← win.deref win.current).seqNum.toNat
  if u32 (i32 (curNum + 1)) < seqNum.toNat then
    return (0, win)
  let lowNum := i32 (← win.deref win.lower).seqNum.toNat
  if seqNum.toNat < u32 lowNum then
    return (1, win)
  let newLower := win.slotOf seqNum
  let oldLowSeq := i32 (← win.deref win.lower).seqNum.toNat
  let win ← freeSlots (seqNum.toNat - u32 oldLowSeq) oldLowSeq win
  return (1, { win with
    lower := newLower
    upper := (i32 (i32 (newLower + win.winSize) - 1)).tmod win.winSize })

def srej (win : Window) (seqNum : UInt32) : Except Halt (Option PduS) := do
  if win.current = -1 then
    return none
  if (← win.deref win.current).seqNum + 1 < seqNum then
    return none
  if seqNum < (← win.deref win.lower).seqNum then
    return none
  win.slot (win.slotOf seqNum)

def getLow (win : Window) : Except Halt (Option PduS) := do
  if ← isWindowEmpty win then
    return none
  win.slot win.lower

def isBufFull (win : Window) : Bool := win.current = win.upper

def isBufEmpty (win : Window) : Bool := win.current = -1

def lastPacket (win : Window) : UInt32 := win.lastSeq

def firstPacket (win : Window) : UInt32 := win.firstSeq

def skip (win : Window) (seqNum : UInt32) : Except Halt (ℕ × Window) :=
  if isBufEmpty win then
    let lower := win.slotOf seqNum
    .ok (1, { win with
      lower := lower
      current := lower
      upper := (i32 (i32 (lower + win.winSize) - 1)).tmod win.winSize
      lastSeq := seqNum
      firstSeq := seqNum })
  else if isBufFull win then
    .error .exit
  else if win.slotOf seqNum ≠ (i32 (win.current + 1)).tmod win.winSize then
    .ok (0, win)
  else
    .ok (1, { win with
      current := (i32 (win.current + 1)).tmod win.winSize
      lastSeq := seqNum })

/-- The position of an index on the circle that starts after `upper`. -/
def circleIndex (win : Window) (a : ℤ) : ℤ :=
  (i32 (i32 (i32 (a + win.winSize) - 1) - win.upper)).tmod win.winSize

def lessIndex (win : Window) (a b : ℤ) : Bool :=
  circleIndex win a < circleIndex win b

def buffer (win : Window) (packet : PduS) : Except Halt (ℕ × Window) := do
  let newCur := win.slotOf packet.seqNum
  if win.current = -1 then
    return (0, win)
  if newCur = win.lower then
    let win ← win.store win.lower (some packet)
    return (2, win)
  match ← win.slot newCur with
  | some other =>
      if packet.seqNum = other.seqNum then
        let win ← win.store newCur (some packet)
        return (1, win)
      else
        return (0, win)
  | none =>
      let win ← win.store newCur (some packet)
      if lessIndex win win.current newCur then
        return (1, { win with current := newCur, lastSeq := packet.seqNum })
      else
        return (1, win)

def unbuffer (win : Window) : Except Halt (Option PduS × Window) := do
  match ← win.slot win.lower with
  | none => return (none, win)
  | some packet =>
      let win := { win with firstSeq := packet.seqNum + 1 }
      let win ← win.store win.lower none
      let win := if win.current = win.lower then { win with current := -1 } else win
      return (some packet, { win with
        lower := (i32 (win.lower + 1)).tmod win.winSize
        upper := (i32 (win.upper + 1)).tmod win.winSize })

end SelRej

import SelRej.Heap
import SelRej.Window

/-!
# The window in memory

`window.c` and its callers once more, now with the blocks that `malloc` hands
out: a `struct PduS` with a pointer to its payload, the payload itself, and the
array `win.queue` of pointers. Every access to a block that was never allocated
or is already released stops the process as `dangling`, and so does releasing it
twice.

The functions of `Memory` have the names they have in the source. `Call` lists
what the server and rcopy do with the window between two system calls;
`Call.perform` does it on the values of `Window`, and `Memory.perform` in memory.
-/
namespace SelRej
open CInt

/-- `struct PduS` as it lies in memory. -/
structure PduStruct where
  seqNum : UInt32
  checksum : UInt16
  flag : UInt8
  payload : Option ℕ
  payLen : UInt16

/-- What `malloc` was asked for: a struct that is not filled yet, a struct, a
payload, or the array of the window. -/
inductive Block where
  | raw
  | pdu (packet : PduStruct)
  | bytes (data : List UInt8)
  | queue (slots : ℤ → Option ℕ)

/-- The global `win`, with `queue` a pointer. -/
structure WindowVars where
  queue : Option ℕ
  winSize : ℤ
  lower : ℤ
  upper : ℤ
  current : ℤ
  lastSeq : UInt32
  firstSeq : UInt32

structure Memory where
  heap : Heap Block
  win : WindowVars

abbrev MemProc (α : Type) := Except (HeapFault Halt) α

def loadPdu (heap : Heap Block) (p : ℕ) : MemProc PduStruct := do
  match ← heap.load p with
  | .pdu packet => pure packet
  | .raw => throw (.stop .uninit)
  | _ => throw .dangling

def loadBytes (heap : Heap Block) (p : Option ℕ) (len : ℕ) : MemProc (List UInt8) := do
  match p with
  | none => throw (.stop .nullDeref)
  | some p =>
      match ← heap.load p with
      | .bytes data => if len ≤ data.length then pure (data.take len) else throw (.stop .outOfBounds)
      | _ => throw .dangling

/-- `interpPDU` with the struct at `packet`. -/
def interpPDUAt (heap : Heap Block) (packet : ℕ) (apdu : List UInt8) :
    MemProc (ℕ × Heap Block) :=
  if in_cksum apdu ≠ 0 then pure (0, heap)
  else
    match apdu with
    | s₀ :: s₁ :: s₂ :: s₃ :: c₀ :: c₁ :: flag :: payload =>
        if payload.length < 65536 then do
          let (data, heap) := heap.malloc (.bytes payload)
          let heap ← heap.write packet (.pdu ⟨ntohl s₀ s₁ s₂ s₃, hostShort c₀ c₁, flag, some data,
            UInt16.ofNat payload.length⟩)
          return (1, heap)
        else throw (.stop .outOfBounds)
    | _ => throw (.stop .exit)

def recreatePDUSAt (heap : Heap Block) (packet : ℕ) : MemProc (List UInt8) := do
  let packet ← loadPdu heap packet
  let payload ← loadBytes heap packet.payload packet.payLen.toNat
  return createPdu packet.seqNum packet.flag payload

def freePDU (heap : Heap Block) (packet : ℕ) : MemProc (Heap Block) := do
  let s ← loadPdu heap packet
  match s.payload with
  | none => return heap
  | some data => do
      let heap ← heap.free data
      heap.write packet (.pdu { s with payload := none })

namespace Memory

/-- The pointer `win.queue[i]`. -/
def slot (m : Memory) (i : ℤ) : MemProc (Option ℕ) := do
  if 0 ≤ i ∧ i < m.win.winSize then
    match m.win.queue with
    | none => throw (.stop .nullDeref)
    | some base =>
        match ← m.heap.load base with
        | .queue slots => return slots i
        | _ => throw .dangling
  else throw (.stop .outOfBounds)

def deref (m : Memory) (i : ℤ) : MemProc PduStruct := do
  match ← m.slot i with
  | some packet => loadPdu m.heap packet
  | none => throw (.stop .nullDeref)

/-- `win.queue[i] = packet`. -/
def store (m : Memory) (i : ℤ) (packet : Option ℕ) : MemProc Memory := do
  if 0 ≤ i ∧ i < m.win.winSize then
    match m.win.queue with
    | none => throw (.stop .nullDeref)
    | some base =>
        match ← m.heap.load base with
        | .queue slots => do
            let heap ← m.heap.write base (.queue (Function.update slots i packet))
            return { m with heap }
        | _ => throw .dangling
  else throw (.stop .outOfBounds)

/-- `freePDU(win.queue[i]); free(win.queue[i])`, which dereferences the slot. -/
def freeSlot (m : Memory) (i : ℤ) : MemProc Memory := do
  match ← m.slot i with
  | none => throw (.stop .nullDeref)
  | some packet => do
      let heap ← freePDU m.heap packet
      let heap ← heap.free packet
      return { m with heap }

def slotOf (m : Memory) (seqNum : UInt32) : ℤ := (seqNum.toNat : ℤ).tmod m.win.winSize

/-- `malloc` is taken to succeed. -/
def initWindow (m : Memory) (windowSize : ℤ) : ℕ × Memory :=
  if windowSize < 1 then (0, m)
  else
    let (queue, heap) := m.heap.malloc (.queue fun _ => none)
    (1, { heap, win := { m.win with
      queue := some queue
      winSize := windowSize
      lower := 0
      upper := i32 (windowSize - 1)
      current := -1 } })

/-- The loop of `freeWindow` with `n` rounds left. It leaves the pointers in
the array. -/
def freeQueue : ℕ → ℤ → Memory → MemProc Memory
  | 0, _, m => pure m
  | n + 1, i, m => do
      match ← m.slot i with
      | none => freeQueue n (i + 1) m
      | some _ => do
          let m ← m.freeSlot i
          freeQueue n (i + 1) m

def freeWindow (m : Memory) : MemProc Memory := do
  let m ← freeQueue m.win.winSize.toNat 0 m
  match m.win.queue with
  | none => return m
  | some queue => do
      let heap ← m.heap.free queue
      return { m with heap }

def isWindowFull (m : Memory) : MemProc Bool := do
  return (← m.slot m.win.upper).isSome

def isWindowEmpty (m : Memory) : MemProc Bool := do
  return (← m.slot m.win.lower).isNone

def serverSent (m : Memory) (packet : ℕ) : MemProc (ℕ × Memory) := do
  if ← m.isWindowFull then
    return (0, m)
  if m.slotOf (← loadPdu m.heap packet).seqNum ≠ (i32 (m.win.current + 1)).tmod m.win.winSize then
    return (0, m)
  let m := { m with win.current := (i32 (m.win.current + 1)).tmod m.win.winSize }
  let m ← m.store m.win.current (some packet)
  return (1, m)

/-- The loop of `recvRR` with `n` rounds left. -/
def freeSlots : ℕ → ℤ → Memory → MemProc Memory
  | 0, _, m => pure m
  | n + 1, i, m => do
      let index := i.tmod m.win.winSize
      let m ← m.freeSlot index
      let m ← m.store index none
      freeSlots n (i32 (i + 1)) m

def recvRR (m : Memory) (seqNum : UInt32) : MemProc (ℕ × Memory) := do
  if m.win.current = -1 then
    return (0, m)
  let curNum := i32 (← m.deref m.win.current).seqNum.toNat
  if u32 (i32 (curNum + 1)) < seqNum.toNat then
    return (0, m)
  let lowNum := i32 (← m.deref m.win.lower).seqNum.toNat
  if seqNum.toNat < u32 lowNum then
    return (1, m)
  let newLower := m.slotOf seqNum
  let oldLowSeq := i32 (← m.deref m.win.lower).seqNum.toNat
  let m ← freeSlots (seqNum.toNat - u32 oldLowSeq) oldLowSeq m
  return (1, { m with win := { m.win with
    lower := newLower
    upper := (i32 (i32 (newLower + m.win.winSize) - 1)).tmod m.win.winSize } })

def srej (m : Memory) (seqNum : UInt32) : MemProc (Option ℕ) := do
  if m.win.current = -1 then
    return none
  if (← m.deref m.win.current).seqNum + 1 < seqNum then
    return none
  if seqNum < (← m.deref m.win.lower).seqNum then
    return none
  m.slot (m.slotOf seqNum)

def getLow (m : Memory) : MemProc (Option ℕ) := do
  if ← m.isWindowEmpty then
    return none
  m.slot m.win.lower

def skip (m : Memory) (seqNum : UInt32) : MemProc (ℕ × Memory) :=
  if m.win.current = -1 then
    let lower := m.slotOf seqNum
    .ok (1, { m with win := { m.win with
      lower := lower
      current := lower
      upper := (i32 (i32 (lower + m.win.winSize) - 1)).tmod m.win.winSize
      lastSeq := seqNum
      firstSeq := seqNum } })
  else if m.win.current = m.win.upper then
    .error (.stop .exit)
  else if m.slotOf seqNum ≠ (i32 (m.win.current + 1)).tmod m.win.winSize then
    .ok (0, m)
  else
    .ok (1, { m with win := { m.win with
      current := (i32 (m.win.current + 1)).tmod m.win.winSize
      lastSeq := seqNum } })

def circleIndex (m : Memory) (a : ℤ) : ℤ :=
  (i32 (i32 (i32 (a + m.win.winSize) - 1) - m.win.upper)).tmod m.win.winSize

def lessIndex (m : Memory) (a b : ℤ) : Bool := m.circleIndex a < m.circleIndex b

def buffer (m : Memory) (packet : ℕ) : MemProc (ℕ × Memory) := do
  let seqNum := (← loadPdu m.heap packet).seqNum
  let newCur := m.slotOf seqNum
  if m.win.current = -1 then
    return (0, m)
  if newCur = m.win.lower then
    let m ← m.store m.win.lower (some packet)
    return (2, m)
  match ← m.slot newCur with
  | some other =>
      if seqNum = (← loadPdu m.heap other).seqNum then
        let m ← m.freeSlot newCur
        let m ← m.store newCur (some packet)
        return (1, m)
      else
        return (0, m)
  | none =>
      let m ← m.store newCur (some packet)
      if m.lessIndex m.win.current newCur then
        return (1, { m with win := { m.win with current := newCur, lastSeq := seqNum } })
      else
        return (1, m)

def unbuffer (m : Memory) : MemProc (Option ℕ × Memory) := do
  match ← m.slot m.win.lower with
  | none => return (none, m)
  | some packet =>
      let m := { m with win.firstSeq := (← loadPdu m.heap packet).seqNum + 1 }
      let m ← m.store m.win.lower none
      let m := if m.win.current = m.win.lower then { m with win.current := -1 } else m
      return (some packet, { m with win := { m.win with
        lower := (i32 (m.win.lower + 1)).tmod m.win.winSize
        upper := (i32 (m.win.upper + 1)).tmod m.win.winSize } })

end Memory

/-- What the server and rcopy do with the window. -/
inductive Call where
  | sendNext (pduBuf : List UInt8)
  | recvRR (seqNum : UInt32)
  | handleSrej (seqNum : UInt32)
  | resendLowest
  | skip (seqNum : UInt32)
  | bufferPacket (packet : PduS)
  | unbufferNext

/-- What the caller gets to see: the value returned, the PDU it sends again, or
the number and the bytes of the packet it writes. -/
inductive Answer where
  | code (n : ℕ)
  | resent (pduBuf : Option (List UInt8))
  | unbuffered (packet : Option (UInt32 × List UInt8))
  deriving DecidableEq

/-- The global before `initWindow`, which `handleClient` and `handleConnection`
call once. -/
def Memory.start (heap : Heap Block) : Memory := ⟨heap, ⟨none, 0, 0, 0, 0, 0, 0⟩⟩

/-- The end of `sendNextPdu`. A struct that `interpPDU` did not fill is read
unless the window is full. -/
def sendNext (win : Window) (pduBuf : List UInt8) : Except Halt (ℕ × Window) := do
  match ← interpPDU pduBuf with
  | none => if ← isWindowFull win then return (0, win) else throw .uninit
  | some sent => serverSent win sent

def Call.perform : Call → Window → Except Halt (Answer × Window)
  | .sendNext pduBuf, win => do
      let (code, win) ← SelRej.sendNext win pduBuf
      return (.code code, win)
  | .recvRR seqNum, win => do
      let (code, win) ← SelRej.recvRR win seqNum
      return (.code code, win)
  | .handleSrej seqNum, win => do
      let packet ← SelRej.srej win seqNum
      return (.resent (packet.map recreatePDUS), win)
  | .resendLowest, win => do
      let packet ← SelRej.getLow win
      return (.resent (packet.map recreatePDUS), win)
  | .skip seqNum, win => do
      let (code, win) ← SelRej.skip win seqNum
      return (.code code, win)
  | .bufferPacket packet, win => do
      let (code, win) ← SelRej.buffer win packet
      return (.code code, win)
  | .unbufferNext, win => do
      let (packet, win) ← SelRej.unbuffer win
      return (.unbuffered (packet.map fun packet => (packet.seqNum, packet.payload)), win)

namespace Memory

/-- The end of `sendNextPdu`, which ignores the result of `interpPDU`. -/
def sendNext (m : Memory) (pduBuf : List UInt8) : MemProc (ℕ × Memory) := do
  let (sent, heap) := m.heap.malloc .raw
  let (_, heap) ← interpPDUAt heap sent pduBuf
  serverSent { m with heap } sent

/-- The PDU that `handleSrej` and `resendLowest` send, if any. -/
def resend (m : Memory) : Option ℕ → MemProc (Option (List UInt8))
  | none => pure none
  | some packet => do
      let pduBuf ← recreatePDUSAt m.heap packet
      return some pduBuf

def bufferPacket (m : Memory) (packet : PduS) : MemProc (ℕ × Memory) := do
  let (payBuf, heap) := m.heap.malloc (.bytes packet.payload)
  let (toBuffer, heap) := heap.malloc (.pdu ⟨packet.seqNum, packet.checksum, packet.flag,
    some payBuf, packet.payLen⟩)
  buffer { m with heap } toBuffer

/-- A round of `unbufferSrej`: the packet is written and acknowledged, then
released. -/
def unbufferNext (m : Memory) : MemProc (Option (UInt32 × List UInt8) × Memory) := do
  match ← m.unbuffer with
  | (none, m) => return (none, m)
  | (some packet, m) => do
      let s ← loadPdu m.heap packet
      let data ← loadBytes m.heap s.payload s.payLen.toNat
      let heap ← freePDU m.heap packet
      let heap ← heap.free packet
      return (some (s.seqNum, data), { m with heap })

def perform : Call → Memory → MemProc (Answer × Memory)
  | .sendNext pduBuf, m => do
      let (code, m) ← m.sendNext pduBuf
      return (.code code, m)
  | .recvRR seqNum, m => do
      let (code, m) ← m.recvRR seqNum
      return (.code code, m)
  | .handleSrej seqNum, m => do
      let packet ← m.srej seqNum
      return (.resent (← m.resend packet), m)
  | .resendLowest, m => do
      let packet ← m.getLow
      return (.resent (← m.resend packet), m)
  | .skip seqNum, m => do
      let (code, m) ← m.skip seqNum
      return (.code code, m)
  | .bufferPacket packet, m => do
      let (code, m) ← m.bufferPacket packet
      return (.code code, m)
  | .unbufferNext, m => do
      let (packet, m) ← m.unbufferNext
      return (.unbuffered packet, m)

end Memory
end SelRej

import SelRej.Window

/-!
# rcopy

The receiving side of `rcopy.c` during the data transfer. rcopy waits in
`pollCall` in one of two nested loops: in `recvDataLoop`, or in `handleSrej`
while packets are missing. `Rcopy.step` runs the program from one return of
`pollCall` to the next, and `RcopyPc` is the loop it waits in. What rcopy sends
and what it writes to the output file are the outputs of a step, in order. The
result of `fwrite` is not used by the program.
-/
namespace SelRej

inductive Action where
  | sendto (pduBuf : List UInt8)
  -- `writeData(packet->payload, packet->payLen, output)`
  | fwrite (packet : PduS)
  deriving DecidableEq, Repr

abbrev Proc := Emit Halt Action

/-- What `pollCall` finds: nothing in time, or a datagram to receive. -/
inductive Poll where
  | timeout
  | datagram (bytes : List UInt8)
  deriving DecidableEq, Repr

inductive RcopyPc where
  -- `ackInitialResp` has not yet passed its packet to `recvDataLoop`
  | start
  | recvDataLoop
  | handleSrej (lastFlag : UInt8)
  -- `recvDataLoop` has left its loop on `EOF_FLAG`
  | finished
  deriving DecidableEq, Repr

structure Rcopy where
  win : Window
  expectedSeq : UInt32
  mySeq : UInt32
  pc : RcopyPc

def sendRR (r : Rcopy) (readySeq : UInt32) : Proc Rcopy := do
  Emit.emit (.sendto (createPdu r.mySeq RR_FLAG (htonl readySeq)))
  return { r with mySeq := r.mySeq + 1 }

/-- The loop of `sendSrejs` with `n` rounds left; it ignores what `skip` returns. -/
def sendSrejsLoop : ℕ → UInt32 → Rcopy → Proc Rcopy
  | 0, _, r => pure r
  | n + 1, i, r => do
      let (_, win) ← skip r.win i
      Emit.emit (.sendto (createPdu r.mySeq SREJ_FLAG (htonl i)))
      sendSrejsLoop n (i + 1) { r with win, mySeq := r.mySeq + 1 }

def sendSrejs (r : Rcopy) (expectedSeq recvSeq : UInt32) : Proc Rcopy :=
  sendSrejsLoop (recvSeq.toNat - expectedSeq.toNat) expectedSeq r

/-- Sends the SREJ of the lowest missing packet again. -/
def resendSrej (r : Rcopy) : Proc Rcopy := do
  Emit.emit (.sendto (createPdu r.mySeq SREJ_FLAG (htonl (firstPacket r.win))))
  return { r with mySeq := r.mySeq + 1 }

/-- The buffered packet is a copy of the received one. -/
def bufferPacket (r : Rcopy) (packet : PduS) : Except Halt (ℕ × Window) :=
  buffer r.win packet

def unbufferSrejLoop : ℕ → Rcopy → Proc Rcopy
  | 0, _ => Emit.halt .diverge
  | fuel + 1, r => do
      match ← unbuffer r.win with
      | (none, win) => return { r with win }
      | (some packet, win) => do
          Emit.emit (.fwrite packet)
          let r ← sendRR { r with win } (packet.seqNum + 1)
          unbufferSrejLoop fuel r

/-- Every round empties a slot, so there are at most `winSize` successful ones. -/
def unbufferSrej (r : Rcopy) : Proc Rcopy :=
  unbufferSrejLoop (r.win.winSize.toNat + 1) r

/-- The test of `recvDataLoop`'s loop. -/
def recvDataLoopTest (r : Rcopy) (lastFlag : UInt8) : Rcopy :=
  { r with pc := if lastFlag = EOF_FLAG then .finished else .recvDataLoop }

/-- The test of `handleSrej`'s loop, and the return to `recvDataLoop`. -/
def handleSrejTest (r : Rcopy) (lastFlag : UInt8) : Rcopy :=
  if isBufEmpty r.win then
    recvDataLoopTest { r with expectedSeq := lastPacket r.win + 1 } lastFlag
  else { r with pc := .handleSrej lastFlag }

/-- `handleSrej` up to its loop. -/
def Rcopy.handleSrej (r : Rcopy) (prevPacket : PduS) : Proc Rcopy := do
  let r ← sendSrejs r r.expectedSeq prevPacket.seqNum
  let (bufRet, win) ← bufferPacket r prevPacket
  if bufRet = 0 then
    Emit.halt .exit
  else
    return handleSrejTest { r with win } DATA_FLAG

def processDataPacket (r : Rcopy) (packet : PduS) : Proc Rcopy := do
  if r.expectedSeq < packet.seqNum then
    r.handleSrej packet
  else if packet.seqNum = r.expectedSeq then
    Emit.emit (.fwrite packet)
    let r ← sendRR { r with expectedSeq := r.expectedSeq + 1 } (r.expectedSeq + 1)
    return recvDataLoopTest r DATA_FLAG
  else
    let r ← sendRR r r.expectedSeq
    return recvDataLoopTest r DATA_FLAG

/-- Acknowledges the EOF. -/
def Rcopy.processEof (r : Rcopy) : Proc Rcopy := do
  Emit.emit (.sendto (createPdu r.mySeq ACKEOF_FLAG []))
  return recvDataLoopTest r EOF_FLAG

def processPacket (r : Rcopy) (packet : PduS) : Proc Rcopy :=
  if packet.flag = DATA_FLAG then processDataPacket r packet
  else if packet.flag = EOF_FLAG then r.processEof
  else pure (recvDataLoopTest r packet.flag)

/-- `processWaitingPacket` once the numbers below the packet are rejected. -/
def bufferWaitingPacket (r : Rcopy) (packet : PduS) : Proc Rcopy := do
  if firstPacket r.win ≤ packet.seqNum then
    let (bufRet, win) ← bufferPacket r packet
    if bufRet = 0 then
      Emit.halt .exit
    else if bufRet = 2 then
      unbufferSrej { r with win }
    else
      return { r with win }
  else
    let r ← sendRR r (firstPacket r.win)
    resendSrej r

def processWaitingPacket (r : Rcopy) (packet : PduS) : Proc (Rcopy × UInt8) := do
  if packet.flag ≠ DATA_FLAG then
    return (r, packet.flag)
  let r ← (if lastPacket r.win + 1 < packet.seqNum then
      sendSrejs r (lastPacket r.win + 1) packet.seqNum
    else pure r)
  let r ← bufferWaitingPacket r packet
  return (r, DATA_FLAG)

namespace Rcopy

/-- The length passed to `recvfrom`. -/
def recvLen (bufSize : UInt16) : RcopyPc → ℕ
  | .start => MAXBUF
  | _ => bufSize.toNat + HEADER_LEN

/-- A packet that `interpPDU` accepted, in the loop rcopy waits in. The packet
that `ackInitialResp` hands over goes through `processPacket` like any other:
`handleSrej`, which it may enter, returns right after a data packet, so the
flag that `recvDataLoop` then tests is `DATA_FLAG` in both cases. -/
def receive (r : Rcopy) (packet : PduS) : Proc Rcopy :=
  match r.pc with
  | .start =>
      if packet.flag = SETUPRESP_FLAG ∨ packet.flag = DATA_FLAG then processPacket r packet
      else pure r
  | .recvDataLoop => processPacket r packet
  | .handleSrej _ => do
      let (r, lastFlag) ← processWaitingPacket r packet
      return handleSrejTest r lastFlag
  | .finished => pure r

/-- From one return of `pollCall` to the next. After ten seconds without a
datagram rcopy gives up; a corrupted datagram is ignored. -/
def step (bufSize : UInt16) (r : Rcopy) : Poll → Proc Rcopy
  | .timeout =>
      match r.pc with
      | .start | .finished => pure r
      | .recvDataLoop | .handleSrej _ => Emit.halt .exit
  | .datagram bytes => do
      match ← interpPDU (bytes.take (recvLen bufSize r.pc)) with
      | none => return r
      | some packet => r.receive packet

section
variable {bufSize : UInt16} {r : Rcopy} {bytes : List UInt8}

theorem step_timeout (bufSize : UInt16) (r : Rcopy) :
    r.step bufSize .timeout = ⟨[], .ok r⟩ ∨ r.step bufSize .timeout = ⟨[], .error .exit⟩ := by
  unfold step
  cases r.pc with
  | start => exact .inl rfl
  | recvDataLoop => exact .inr rfl
  | handleSrej lastFlag => exact .inr rfl
  | finished => exact .inl rfl

theorem receive_finished (h : r.pc = .finished) (packet : PduS) :
    r.receive packet = ⟨[], .ok r⟩ := by
  unfold receive
  rw [h]
  rfl

theorem receive_setup {packet : PduS} (hpc : r.pc = .start)
    (hflag : packet.flag = SETUPRESP_FLAG) :
    r.receive packet = ⟨[], .ok { r with pc := .recvDataLoop }⟩ := by
  unfold Rcopy.receive
  rw [hpc]
  dsimp only
  rw [if_pos (.inl hflag), processPacket, if_neg (by rw [hflag]; decide),
    if_neg (by rw [hflag]; decide), recvDataLoopTest, if_neg (by rw [hflag]; decide)]
  rfl

theorem step_rejected (h : interpPDU (bytes.take (recvLen bufSize r.pc)) = .ok none) :
    r.step bufSize (.datagram bytes) = ⟨[], .ok r⟩ := by
  unfold step
  dsimp only
  rw [h, Emit.liftM_eq, Emit.bind_silent]
  rfl

theorem step_accepted {packet : PduS}
    (h : interpPDU (bytes.take (recvLen bufSize r.pc)) = .ok (some packet)) :
    r.step bufSize (.datagram bytes) = r.receive packet := by
  unfold step
  dsimp only
  rw [h, Emit.liftM_eq, Emit.bind_silent]

end

/-- rcopy after `initWindow`, when `recvDataLoop` is called. -/
def init (w : ℕ) : Rcopy := ⟨(initWindow noWindow w).2, 0, 0, .start⟩

end Rcopy
end SelRej

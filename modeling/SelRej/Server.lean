import SelRej.Rcopy

/-!
# The server child

`transferData` of `server.c` and everything it calls, for the child that serves
one rcopy. The child waits in `pollCall` at three places: in `checkForRRs`,
which polls without waiting, in `openWindow`, which `transferData` and
`waitOnRRs` call, and in `processEof`. `Server.step` runs it from one return of
`pollCall` to the next, and `ServerPc` is the place. Its outputs are the
datagrams it sends. Reading the input file is taken to succeed.
-/
namespace SelRej

/-- The input file: what is left to read, and the end-of-file indicator. -/
structure Input where
  rest : List UInt8
  feof : Bool
  deriving DecidableEq, Repr

/-- `fread(dataBuf, 1, n, input)` sets the indicator when it runs short. -/
def Input.fread (input : Input) (n : ℕ) : List UInt8 × Input :=
  (input.rest.take n, ⟨input.rest.drop n, input.feof || decide (input.rest.length < n)⟩)

/-- The functions that call `openWindow`. -/
inductive Caller where
  | transferData | waitOnRRs
  deriving DecidableEq, Repr

inductive ServerPc where
  | checkForRRs
  | openWindow (count : ℕ) (caller : Caller)
  -- `packet.flag` and `respBuf` keep their contents from round to round
  | processEof (count : ℕ) (flag : UInt8) (respBuf : List UInt8)
  -- `processEof` has returned: the transfer is taken to be complete
  | returned
  deriving DecidableEq, Repr

structure Server where
  win : Window
  input : Input
  seqNum : UInt32
  pc : ServerPc

abbrev ServerProc := Emit Halt (List UInt8)

namespace Server

def getNextData (s : Server) (bufSize : UInt16) : List UInt8 × Input :=
  s.input.fread bufSize.toNat

/-- `serverSent` is called on the struct whether or not `interpPDU` filled it;
its result is ignored. -/
def sendNextPdu (bufSize : UInt16) (s : Server) : ServerProc Server := do
  let (dataBuf, input) := s.getNextData bufSize
  let pduBuf := shortPdu (createPdu s.seqNum DATA_FLAG dataBuf)
  sendtoErr pduBuf.length pduBuf
  match ← interpPDU pduBuf with
  | none => Emit.halt .uninit
  | some sent => do
      let (_, win) ← serverSent s.win sent
      return { s with win, input }

def sendEof (s : Server) : ServerProc Server := do
  Emit.emit (createPdu s.seqNum EOF_FLAG [])
  return { s with seqNum := s.seqNum + 1 }

/-- The test of `waitOnRRs`' loop, and `processEof` up to its loop. -/
def waitOnRRsTest (s : Server) : ServerProc Server := do
  if ← isWindowEmpty s.win then
    let s ← sendEof s
    -- `packet.flag = -1`, and nothing has been received
    return { s with pc := .processEof 0 255 [] }
  else
    return { s with pc := .openWindow 0 .waitOnRRs }

/-- The test of `transferData`'s loop, and its body up to `checkForRRs`. -/
def transferDataTest (bufSize : UInt16) (s : Server) : ServerProc Server := do
  if s.input.feof then
    waitOnRRsTest s
  else if ← isWindowFull s.win then
    return { s with pc := .checkForRRs }
  else
    let s ← sendNextPdu bufSize s
    return { s with seqNum := s.seqNum + 1, pc := .checkForRRs }

/-- The body of `transferData`'s loop after `checkForRRs`. -/
def transferDataRest (bufSize : UInt16) (s : Server) : ServerProc Server := do
  if ← isWindowFull s.win then
    return { s with pc := .openWindow 0 .transferData }
  else
    transferDataTest bufSize s

/-- Where `openWindow` returns to. -/
def openWindowReturn (bufSize : UInt16) (s : Server) : Caller → ServerProc Server
  | .transferData => transferDataTest bufSize s
  | .waitOnRRs => waitOnRRsTest s

def handleSrej (s : Server) (packet : PduS) : ServerProc Server := do
  let srejSeq ← readSeq packet.payload
  match ← srej s.win srejSeq with
  | none => return s
  | some resendPacket => do
      Emit.emit (shortPdu (recreatePDUS resendPacket))
      return s

def resendLowest (s : Server) : ServerProc Server := do
  match ← getLow s.win with
  | none => return s
  | some packet => do
      Emit.emit (recreatePDUS packet)
      return s

/-- A datagram in the loop of `checkForRRs`; the result of `recvRR` is ignored. -/
def checkForRRsRecv (s : Server) (respBuf : List UInt8) : ServerProc Server := do
  match ← interpPDU respBuf with
  | none => return s
  | some packet =>
      if packet.flag = RR_FLAG then do
        let rrSeq ← readSeq packet.payload
        let (_, win) ← recvRR s.win rrSeq
        return { s with win }
      else if packet.flag = SREJ_FLAG then
        handleSrej s packet
      else
        return s

/-- A datagram in the loop of `openWindow`: an RR ends the loop. -/
def openWindowRecv (bufSize : UInt16) (caller : Caller) (s : Server) (respBuf : List UInt8) :
    ServerProc Server := do
  match ← interpPDU respBuf with
  | none => return s
  | some packet =>
      if packet.flag = SREJ_FLAG then
        handleSrej s packet
      else if packet.flag = RR_FLAG then do
        let rrSeq ← readSeq packet.payload
        let (_, win) ← recvRR s.win rrSeq
        openWindowReturn bufSize { s with win } caller
      else
        return s

def openWindowTimeout (count : ℕ) (caller : Caller) (s : Server) : ServerProc Server := do
  let s ← resendLowest s
  if count + 1 < 10 then
    return { s with pc := .openWindow (count + 1) caller }
  else
    Emit.halt .exit

/-- The condition of `processEof`'s loop, and what follows the loop. The loop
goes on while `count < 10`, the buffer holds no valid PDU, and the flag of the
packet is not `ACKEOF_FLAG`. -/
def processEofTest (count : ℕ) (flag : UInt8) (respBuf : List UInt8) (s : Server) :
    ServerProc Server := do
  if count < 10 then
    match ← interpPDU respBuf with
    | none =>
        if flag ≠ ACKEOF_FLAG then
          return { s with pc := .processEof count flag respBuf }
        else
          return { s with pc := .returned }
    | some _ => return { s with pc := .returned }
  else
    Emit.halt .exit

def processEofTimeout (count : ℕ) (flag : UInt8) (respBuf : List UInt8) (s : Server) :
    ServerProc Server := do
  let s ← sendEof s
  processEofTest (count + 1) flag respBuf s

def recvLen (bufSize : UInt16) : ServerPc → ℕ
  | .checkForRRs => max bufSize.toNat 4 + HEADER_LEN
  | .openWindow _ _ => 4 + HEADER_LEN
  | .processEof _ _ _ | .returned => bufSize.toNat + HEADER_LEN

/-- From one return of `pollCall` to the next. -/
def step (bufSize : UInt16) (s : Server) (poll : Poll) : ServerProc Server :=
  match s.pc, poll with
  | .checkForRRs, .timeout => transferDataRest bufSize s
  | .checkForRRs, .datagram bytes => checkForRRsRecv s (bytes.take (recvLen bufSize s.pc))
  | .openWindow count caller, .timeout => openWindowTimeout count caller s
  | .openWindow _ caller, .datagram bytes =>
      openWindowRecv bufSize caller s (bytes.take (recvLen bufSize s.pc))
  | .processEof count flag respBuf, .timeout => processEofTimeout count flag respBuf s
  | .processEof count flag _, .datagram bytes =>
      processEofTest count flag (bytes.take (recvLen bufSize s.pc)) s
  | .returned, _ => pure s

section
variable {bufSize : UInt16} {s : Server} {count : ℕ} {caller : Caller} {flag : UInt8}
  {respBuf : List UInt8}

theorem step_checkForRRs (h : s.pc = .checkForRRs) :
    s.step bufSize .timeout = transferDataRest bufSize s ∧
      ∀ bytes, s.step bufSize (.datagram bytes) =
        checkForRRsRecv s (bytes.take (recvLen bufSize .checkForRRs)) := by
  unfold step
  rw [h]
  exact ⟨rfl, fun _ => rfl⟩

theorem step_openWindow (h : s.pc = .openWindow count caller) :
    s.step bufSize .timeout = openWindowTimeout count caller s ∧
      ∀ bytes, s.step bufSize (.datagram bytes) =
        openWindowRecv bufSize caller s (bytes.take (recvLen bufSize (.openWindow count caller))) := by
  unfold step
  rw [h]
  exact ⟨rfl, fun _ => rfl⟩

theorem step_processEof (h : s.pc = .processEof count flag respBuf) :
    s.step bufSize .timeout = processEofTimeout count flag respBuf s ∧
      ∀ bytes, s.step bufSize (.datagram bytes) = processEofTest count flag
        (bytes.take (recvLen bufSize (.processEof count flag respBuf))) s := by
  unfold step
  rw [h]
  exact ⟨rfl, fun _ => rfl⟩

theorem step_returned (h : s.pc = .returned) (poll : Poll) :
    s.step bufSize poll = ⟨[], .ok s⟩ := by
  unfold step
  rw [h]
  rfl

end

/-- The child after `initWindow`, when it first reaches the loop of
`transferData`. The place to wait is the one that this leads to. -/
def init (w : ℕ) (bufSize : UInt16) (file : List UInt8) : ServerProc Server :=
  transferDataTest bufSize ⟨(initWindow noWindow w).2, ⟨file, false⟩, 0, .checkForRRs⟩

end Server
end SelRej

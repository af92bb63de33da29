import SelRej.Emit
import SelRej.Pdu

/-!
# The setup phase

`getInitialResp` and `ackInitialResp` of `rcopy.c`, and `handleSetup` and
`setupResponse` of `server.c`. All of them wait in `pollCall` inside a loop;
a step runs the program from one return of `pollCall` to the next. The
outputs of a step are the datagrams it sends and where it sends them: a
receive overwrites the peer's address with the source of the datagram,
whatever the datagram holds. After the setup phase a side only keeps this
address; what it does is modelled elsewhere.
-/
namespace SelRej

/-- Addresses of sockets: rcopy's, the one at which the server waits for
clients, and those of the children. -/
inductive Addr where
  | rcopy
  | server
  | child (j : ℕ)
  deriving DecidableEq, Repr

/-- Nothing in time, or the source and the bytes of a datagram. -/
abbrev Recv := Option (Addr × List UInt8)

abbrev SetupProc := Emit Halt (Addr × List UInt8)

def htons (n : UInt16) : UInt16 := hostShort (UInt8.ofNat (n.toNat / 256)) (UInt8.ofNat n.toNat)

structure Request where
  fromFile : List UInt8
  winSize : UInt32
  bufSize : UInt16

inductive RcopySetupPc where
  -- `respBuf[0 .. respLen]` keeps its contents when `pollCall` times out
  | getInitialResp (count : ℕ) (respBuf : List UInt8)
  | ackInitialResp (count : ℕ) (respBuf : List UInt8)
  | recvDataLoop (packet : PduS)
  deriving DecidableEq, Repr

structure RcopySetup where
  serverS : Addr
  pc : RcopySetupPc
  deriving DecidableEq, Repr

def Request.payLoad (req : Request) : List UInt8 :=
  htonl req.winSize ++ hostBytes (htons req.bufSize) ++ req.fromFile ++ [0]

/-- What is sent of the INITIAL PDU. -/
def Request.pduBuf (req : Request) : List UInt8 := shortPdu (createPdu 0 INITIAL_FLAG req.payLoad)

/-- The INITIAL PDU is built in arrays of `bufSize` and `bufSize + HEADER_LEN`
bytes. -/
def Request.initialPdu (req : Request) : Except Halt (List UInt8) :=
  if req.payLoad.length ≤ req.bufSize.toNat then .ok req.pduBuf else .error .outOfBounds

namespace RcopySetup

/-- The body of `getInitialResp`'s loop up to `pollCall`. -/
def getInitialRespSend (req : Request) (count : ℕ) (respBuf : List UInt8) (r : RcopySetup) :
    SetupProc RcopySetup := do
  let pduBuf ← req.initialPdu
  sendtoErr pduBuf.length (r.serverS, pduBuf)
  return { r with pc := .getInitialResp count respBuf }

def ackInitialRespSend (count : ℕ) (respBuf : List UInt8) (r : RcopySetup) :
    SetupProc RcopySetup := do
  Emit.emit (r.serverS, createPdu 1 SETUPRESP_FLAG [])
  return { r with pc := .ackInitialResp count respBuf }

def initExchangeRest (packet : PduS) (r : RcopySetup) : SetupProc RcopySetup :=
  match packet.payload with
  | [] => Emit.halt .outOfBounds
  | result :: _ => if result = 0 then Emit.halt .exit else ackInitialRespSend 0 [] r

/-- The condition of `getInitialResp`'s loop, and what follows the loop. -/
def getInitialRespTest (req : Request) (count : ℕ) (respBuf : List UInt8) (r : RcopySetup) :
    SetupProc RcopySetup := do
  match ← interpPDU respBuf with
  | none => if count < 10 then getInitialRespSend req count respBuf r else Emit.halt .exit
  | some packet =>
      if packet.flag ≠ INITIALRESP_FLAG then
        if count < 10 then getInitialRespSend req count respBuf r else Emit.halt .exit
      else if 10 ≤ count then Emit.halt .exit
      else initExchangeRest packet r

/-- The condition of `ackInitialResp`'s loop, and what follows the loop. The
assignment of NULL to its parameter has no effect. -/
def ackInitialRespTest (count : ℕ) (respBuf : List UInt8) (r : RcopySetup) :
    SetupProc RcopySetup := do
  match ← interpPDU respBuf with
  | none => if count < 10 then ackInitialRespSend count respBuf r else Emit.halt .exit
  | some packet =>
      if ¬(packet.flag = SETUPRESP_FLAG ∨ packet.flag = DATA_FLAG) then
        if count < 10 then ackInitialRespSend count respBuf r else Emit.halt .exit
      else if 10 ≤ count then Emit.halt .exit
      else return { r with pc := .recvDataLoop packet }

/-- The length passed to `recvfrom`. `getInitialResp` has overwritten its
parameter with `htons(bufSize)` by then. -/
def recvLen (req : Request) : RcopySetupPc → ℕ
  | .getInitialResp _ _ => (htons req.bufSize).toNat + HEADER_LEN
  | .ackInitialResp _ _ => MAXBUF
  | .recvDataLoop _ => req.bufSize.toNat + HEADER_LEN

/-- From one return of `pollCall` to the next. -/
def step (req : Request) (r : RcopySetup) : Recv → SetupProc RcopySetup
  | none =>
      match r.pc with
      | .getInitialResp count respBuf => getInitialRespTest req (count + 1) respBuf r
      | .ackInitialResp count respBuf => ackInitialRespTest (count + 1) respBuf r
      | .recvDataLoop _ => pure r
  | some (src, bytes) =>
      let respBuf := bytes.take (recvLen req r.pc)
      match r.pc with
      | .getInitialResp count _ =>
          -- `respBuf` has `bufSize + HEADER_LEN` bytes, for the original `bufSize`
          if respBuf.length ≤ req.bufSize.toNat + HEADER_LEN then
            getInitialRespTest req (count + 1) respBuf { r with serverS := src }
          else Emit.halt .outOfBounds
      | .ackInitialResp count _ => ackInitialRespTest (count + 1) respBuf { r with serverS := src }
      | .recvDataLoop _ => pure { r with serverS := src }

def init (req : Request) : SetupProc RcopySetup :=
  getInitialRespSend req 0 [] ⟨.server, .getInitialResp 0 []⟩

end RcopySetup

inductive ChildPc where
  -- `packet.flag` is indeterminate until `interpPDU` fills the struct
  | setupResponse (flag : UInt8)
  -- `setupResponse` has returned an open file
  | transferData
  -- it has returned NULL, or `handleSetup` has refused the request
  | closed
  deriving DecidableEq, Repr

structure ServerChild where
  client : Addr
  winSize : UInt32
  bufSize : UInt16
  pc : ChildPc
  deriving DecidableEq, Repr

namespace ServerChild

def readBufSize (payload : List UInt8) : Except Halt UInt16 :=
  match payload.drop 4 with
  | b₀ :: b₁ :: _ => .ok (htons (hostShort b₀ b₁))
  | _ => .error .outOfBounds

/-- The string that `strncpy` leaves in `infile`, an array of `MAXBUF` bytes
that is not initialised. It writes one byte for every byte of the payload
behind the sizes: behind a NUL it fills up with zeros. -/
def readInfile (payload : List UInt8) : Except Halt (List UInt8) :=
  if MAXBUF < (payload.drop 6).length then .error .outOfBounds
  else if 0 ∈ payload.drop 6 then .ok ((payload.drop 6).takeWhile (· ≠ 0))
  else .error .uninit

def setupResponse (fopen : List UInt8 → Bool) (infile : List UInt8) (flag : UInt8)
    (c : ServerChild) : SetupProc ServerChild :=
  if fopen infile then do
    Emit.emit (c.client, createPdu 0 INITIALRESP_FLAG [1])
    return { c with pc := .setupResponse flag }
  else do
    Emit.emit (c.client, createPdu 0 INITIALRESP_FLAG [0])
    return { c with pc := .closed }

/-- A child handles the datagram for which it was forked; `flag` is what its
`packet.flag` in `setupResponse` happens to hold. -/
def handleSetup (fopen : List UInt8 → Bool) (client : Addr) (pduBuf : List UInt8) (flag : UInt8) :
    SetupProc ServerChild := do
  match ← interpPDU pduBuf with
  | none => return ⟨client, 0, 0, .closed⟩
  | some packet =>
      if packet.flag ≠ INITIAL_FLAG then return ⟨client, 0, 0, .closed⟩
      else do
        let winSize ← readSeq packet.payload
        let bufSize ← readBufSize packet.payload
        let infile ← readInfile packet.payload
        setupResponse fopen infile flag ⟨client, winSize, bufSize, .closed⟩

def setupResponseDone (c : ServerChild) : SetupProc ServerChild := do
  Emit.emit (c.client, createPdu 1 SETUPRESP_FLAG [1])
  return { c with pc := .transferData }

def setupResponseTest (flag : UInt8) (respBuf : List UInt8) (c : ServerChild) :
    SetupProc ServerChild := do
  match ← interpPDU respBuf with
  | none =>
      if flag ≠ SETUPRESP_FLAG then return { c with pc := .setupResponse flag }
      else setupResponseDone c
  | some _ => setupResponseDone c

/-- From one return of `pollCall` to the next. A child that has given up is no
process any more. -/
def step (c : ServerChild) : Recv → SetupProc ServerChild
  | none =>
      match c.pc with
      | .setupResponse _ => pure { c with pc := .closed }
      | .transferData | .closed => pure c
  | some (src, bytes) =>
      match c.pc with
      | .setupResponse flag => setupResponseTest flag (bytes.take MAXBUF) { c with client := src }
      | .transferData => pure { c with client := src }
      | .closed => pure c

end ServerChild
end SelRej

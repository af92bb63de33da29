import SelRej.ClosingLoop
import SelRej.Handshake
import SelRej.SetupAgreement

/-!
# The connection, and datagrams that are rejected

A server child and rcopy as whole processes, from the setup phase through the
transfer to its close. Every receive stores the source of the datagram in the
variable that holds the peer's address, and `interpPDU` looks at the datagram
afterwards; what is sent next goes to the address that was stored last.

`LeavesConnection` is the law that a datagram which `interpPDU` rejects has no
effect on the peer's address, the window, the sequence numbers and the output
file. In every reachable state it holds of the rejected datagrams that come from
the peer, and of no others.
-/
namespace SelRej
open CInt PartialRun

inductive Effect where
  | sendto (dst : Addr) (pduBuf : List UInt8)
  | fwrite (packet : PduS)
  deriving DecidableEq, Repr

abbrev ConnProc := Emit Halt Effect

def setupEffect (o : Addr × List UInt8) : Effect := .sendto o.1 o.2

/-- rcopy's actions during the transfer, with `serverS` as it is then. -/
def actionEffect (serverS : Addr) : Action → Effect
  | .sendto pduBuf => .sendto serverS pduBuf
  | .fwrite packet => .fwrite packet

inductive ServerProcess where
  | setupResponse (client : Addr) (winSize : UInt32) (bufSize : UInt16) (flag : UInt8)
  -- in `transferData`, or a function that it calls
  | transferData (client : Addr) (bufSize : UInt16) (s : Server)
  -- `handleClient` has returned
  | closed

namespace ServerProcess

def transferring (client : Addr) (bufSize : UInt16) (s : Server) : ServerProcess :=
  match s.pc with
  | .returned => .closed
  | _ => .transferData client bufSize s

/-- `handleClient` after `initWindow`. -/
def initialised (file : List UInt8) (c : ServerChild) (init : ℕ × Window) :
    ConnProc ServerProcess :=
  if init.1 = 0 then pure .closed
  else do
    let s ← (Server.transferDataTest c.bufSize
      ⟨init.2, ⟨file, false⟩, 0, .checkForRRs⟩).mapOut (Effect.sendto c.client)
    return transferring c.client c.bufSize s

/-- `handleClient` from a return of `pollCall` in `handleSetup` on, or from the
return of `handleSetup`; `file` is what the file holds that it has opened. -/
def handleClient (file : List UInt8) (c : ServerChild) : ConnProc ServerProcess :=
  match c.pc with
  | .setupResponse flag => pure (.setupResponse c.client c.winSize c.bufSize flag)
  | .closed => pure .closed
  | .transferData => initialised file c (initWindow noWindow (i32 c.winSize.toNat))

def start (fopen : List UInt8 → Bool) (client : Addr) (pduBuf : List UInt8) (flag : UInt8)
    (file : List UInt8) : ConnProc ServerProcess := do
  let c ← (ServerChild.handleSetup fopen client pduBuf flag).mapOut setupEffect
  handleClient file c

/-- From one return of `pollCall` to the next. -/
def step (file : List UInt8) : ServerProcess → Recv → ConnProc ServerProcess
  | .setupResponse client winSize bufSize flag, recv => do
      let c ← (ServerChild.step ⟨client, winSize, bufSize, .setupResponse flag⟩ recv).mapOut
        setupEffect
      handleClient file c
  | .transferData client bufSize s, none => do
      let s ← (s.step bufSize .timeout).mapOut (Effect.sendto client)
      return transferring client bufSize s
  | .transferData _ bufSize s, some (src, bytes) => do
      let s ← (s.step bufSize (.datagram bytes)).mapOut (Effect.sendto src)
      return transferring src bufSize s
  | .closed, _ => pure .closed

def next (file : List UInt8) (p : ServerProcess) (recv : Recv) : Option ServerProcess :=
  (p.step file recv).result.toOption

/-- The states of a child, whatever it was forked for and whatever it receives. -/
def Reachable (file : List UInt8) (p : ServerProcess) : Prop :=
  ∃ fopen client pduBuf flag p₀ recvs,
    (start fopen client pduBuf flag file).result = .ok p₀ ∧ run (next file) p₀ recvs = some p

end ServerProcess

inductive RcopyProcess where
  | getInitialResp (serverS : Addr) (count : ℕ) (respBuf : List UInt8)
  | ackInitialResp (serverS : Addr) (count : ℕ) (respBuf : List UInt8)
  -- in `recvDataLoop`, or a function that it calls
  | recvDataLoop (serverS : Addr) (r : Rcopy)
  -- `handleConnection` has returned
  | closed

namespace RcopyProcess

def receiving (serverS : Addr) (r : Rcopy) : RcopyProcess :=
  match r.pc with
  | .finished => .closed
  | _ => .recvDataLoop serverS r

/-- `handleConnection` after `initWindow`; `packet` is the one that `recvDataLoop`
handles first. -/
def initialised (serverS : Addr) (packet : PduS) (init : ℕ × Window) : ConnProc RcopyProcess :=
  if init.1 = 0 then pure .closed
  else do
    let r ← (Rcopy.receive ⟨init.2, 0, 0, .start⟩ packet).mapOut (actionEffect serverS)
    return receiving serverS r

/-- `handleConnection` from a return of `pollCall` in `initExchange` on, or from
the return of `initExchange`. -/
def handleConnection (req : Request) (r : RcopySetup) : ConnProc RcopyProcess :=
  match r.pc with
  | .getInitialResp count respBuf => pure (.getInitialResp r.serverS count respBuf)
  | .ackInitialResp count respBuf => pure (.ackInitialResp r.serverS count respBuf)
  | .recvDataLoop packet =>
      initialised r.serverS packet (initWindow noWindow (i32 req.winSize.toNat))

def start (req : Request) : ConnProc RcopyProcess := do
  let r ← (RcopySetup.init req).mapOut setupEffect
  handleConnection req r

/-- From one return of `pollCall` to the next. -/
def step (req : Request) : RcopyProcess → Recv → ConnProc RcopyProcess
  | .getInitialResp serverS count respBuf, recv => do
      let r ← (RcopySetup.step req ⟨serverS, .getInitialResp count respBuf⟩ recv).mapOut setupEffect
      handleConnection req r
  | .ackInitialResp serverS count respBuf, recv => do
      let r ← (RcopySetup.step req ⟨serverS, .ackInitialResp count respBuf⟩ recv).mapOut setupEffect
      handleConnection req r
  | .recvDataLoop serverS r, none => do
      let r ← (r.step req.bufSize .timeout).mapOut (actionEffect serverS)
      return receiving serverS r
  | .recvDataLoop _ r, some (src, bytes) => do
      let r ← (r.step req.bufSize (.datagram bytes)).mapOut (actionEffect src)
      return receiving src r
  | .closed, _ => pure .closed

def next (req : Request) (p : RcopyProcess) (recv : Recv) : Option RcopyProcess :=
  (p.step req recv).result.toOption

/-- The states of rcopy, whatever it receives. -/
def Reachable (req : Request) (p : RcopyProcess) : Prop :=
  ∃ p₀ recvs, (start req).result = .ok p₀ ∧ run (next req) p₀ recvs = some p

end RcopyProcess

section
variable {bufSize : UInt16} {s : Server} {bytes : List UInt8}

/-- Where the child waits, a rejected datagram changes at most the place: the
buffer of `processEof` holds it. -/
theorem Server.step_rejected (hopen : Open s.pc)
    (hread : interpPDU (bytes.take (Server.recvLen bufSize s.pc)) = .ok none) :
    ∃ pc, s.step bufSize (.datagram bytes) = ⟨[], .ok { s with pc }⟩ ∧ Open pc := by
  cases hpc : s.pc with
  | checkForRRs =>
      rw [hpc] at hread
      refine ⟨s.pc, ?_, hopen⟩
      rw [(Server.step_checkForRRs hpc).2, Server.checkForRRsRecv, hread, Emit.liftM_eq,
        Emit.bind_silent]
      rfl
  | openWindow count caller =>
      rw [hpc] at hread
      refine ⟨s.pc, ?_, hopen⟩
      rw [(Server.step_openWindow hpc).2, Server.openWindowRecv, hread, Emit.liftM_eq,
        Emit.bind_silent]
      rfl
  | processEof count flag respBuf =>
      rw [hpc] at hread hopen
      obtain ⟨hcount, hflag, _⟩ := hopen
      refine ⟨.processEof count flag _, ?_, hcount, hflag, hread⟩
      rw [(Server.step_processEof hpc).2]
      exact processEofTest_waits (Nat.lt_succ_of_le hcount) hflag hread
  | returned =>
      rw [hpc] at hopen
      exact hopen.elim

end

namespace ServerProcess
variable {file : List UInt8} {p p' : ServerProcess} {src : Addr} {bytes : List UInt8}

def Waits : ServerProcess → Prop
  | .transferData _ _ s => Open s.pc
  | _ => True

theorem transferring_waits {client : Addr} {bufSize : UInt16} {s : Server}
    (h : Open s.pc ∨ s.pc = .returned) : (transferring client bufSize s).Waits := by
  unfold transferring
  split
  · trivial
  · rename_i hne
    exact h.resolve_right hne

theorem initialised_waits (file : List UInt8) (c : ServerChild) (init : ℕ × Window) :
    (initialised file c init).Ends Waits := by
  unfold initialised
  split_ifs
  · exact Emit.ends_pure trivial
  · exact ((transferDataTest_entered _ _).mapOut _).bind fun s hs =>
      Emit.ends_pure (transferring_waits (.inl hs.open))

theorem handleClient_waits (file : List UInt8) (c : ServerChild) :
    (handleClient file c).Ends Waits := by
  unfold handleClient
  split
  · exact Emit.ends_pure trivial
  · exact Emit.ends_pure trivial
  · exact initialised_waits file c _

theorem step_waits (h : p.Waits) (recv : Recv) : (p.step file recv).Ends Waits := by
  have htransfer : ∀ (client : Addr) (bufSize : UInt16) (s : Server) (poll : Poll), Open s.pc →
      (do
        let s' ← (s.step bufSize poll).mapOut (Effect.sendto client)
        return transferring client bufSize s').Ends Waits := fun client bufSize s poll hopen =>
    ((step_open hopen).mapOut _).bind fun s' hs' =>
      Emit.ends_pure (transferring_waits (hs'.imp_right And.left))
  cases p with
  | setupResponse client winSize bufSize flag =>
      exact Emit.ends_bind fun c => handleClient_waits file c
  | transferData client bufSize s =>
      cases recv with
      | none => exact htransfer client bufSize s .timeout h
      | some received => exact htransfer received.1 bufSize s (.datagram received.2) h
  | closed => exact Emit.ends_pure trivial

theorem Reachable.next (h : Reachable file p) {recv : Recv} (hnext : p.next file recv = some p') :
    Reachable file p' := by
  obtain ⟨fopen, client, pduBuf, flag, p₀, recvs, hstart, hrun⟩ := h
  exact ⟨fopen, client, pduBuf, flag, p₀, recvs ++ [recv], hstart,
    run_append hrun (run_cons hnext rfl)⟩

theorem Reachable.waits (h : Reachable file p) : p.Waits := by
  obtain ⟨fopen, client, pduBuf, flag, p₀, recvs, hstart, hrun⟩ := h
  have hp₀ : p₀.Waits :=
    (Emit.ends_bind fun c => handleClient_waits file c : (start fopen client pduBuf flag file).Ends
      Waits) p₀ hstart
  exact run_induct (fun _ recv _ hp hnext => step_waits hp recv _ (toOption_eq_some.mp hnext)) hp₀
    hrun

end ServerProcess

namespace RcopyProcess
variable {req : Request} {p p' : RcopyProcess} {serverS src : Addr} {count : ℕ}
  {respBuf bytes : List UInt8}

def Waits : RcopyProcess → Prop
  | .recvDataLoop _ r => r.pc ≠ .finished
  | _ => True

theorem receiving_waits (serverS : Addr) (r : Rcopy) : (receiving serverS r).Waits := by
  unfold receiving
  split
  · trivial
  · rename_i hne
    exact hne

theorem receiving_of_waits (serverS : Addr) {r : Rcopy} (h : r.pc ≠ .finished) :
    receiving serverS r = .recvDataLoop serverS r := by
  unfold receiving
  split
  · rename_i hpc
    exact absurd hpc h
  · rfl

theorem handleConnection_waits (req : Request) (r : RcopySetup) :
    (handleConnection req r).Ends Waits := by
  unfold handleConnection
  split
  · exact Emit.ends_pure trivial
  · exact Emit.ends_pure trivial
  · unfold initialised
    split_ifs
    · exact Emit.ends_pure trivial
    · exact Emit.ends_bind fun r' => Emit.ends_pure (receiving_waits _ r')

theorem step_waits (req : Request) (p : RcopyProcess) (recv : Recv) :
    (p.step req recv).Ends Waits := by
  cases p with
  | getInitialResp serverS count respBuf =>
      exact Emit.ends_bind fun r => handleConnection_waits req r
  | ackInitialResp serverS count respBuf =>
      exact Emit.ends_bind fun r => handleConnection_waits req r
  | recvDataLoop serverS r =>
      cases recv with
      | none => exact Emit.ends_bind fun r' => Emit.ends_pure (receiving_waits _ r')
      | some received => exact Emit.ends_bind fun r' => Emit.ends_pure (receiving_waits _ r')
  | closed => exact Emit.ends_pure trivial

theorem Reachable.waits (h : Reachable req p) : p.Waits := by
  obtain ⟨p₀, recvs, hstart, hrun⟩ := h
  have hp₀ : p₀.Waits :=
    (Emit.ends_bind fun r => handleConnection_waits req r : (start req).Ends Waits) p₀ hstart
  exact run_induct (fun p recv _ _ hnext => step_waits req p recv _ (toOption_eq_some.mp hnext))
    hp₀ hrun

/-- rcopy has started only if its arrays hold the INITIAL PDU, and `sendtoErr`
has had something to send. -/
theorem Reachable.initialPdu (h : Reachable req p) :
    ∃ pduBuf, req.initialPdu = .ok pduBuf ∧ pduBuf.length ≠ 0 := by
  obtain ⟨p₀, recvs, hstart, hrun⟩ := h
  unfold start RcopySetup.init RcopySetup.getInitialRespSend at hstart
  cases hpdu : req.initialPdu with
  | ok pduBuf =>
      refine ⟨pduBuf, rfl, fun hnothing => ?_⟩
      rw [hpdu, Emit.liftM_eq, Emit.bind_silent, hnothing, sendtoErr_zero] at hstart
      cases hstart
  | error e =>
      rw [hpdu] at hstart
      cases hstart

end RcopyProcess

/-- rcopy asks for file "a" with window size 1 and buffer size 10. -/
def requestA : Request := ⟨[97], 1, 10⟩

def ServerProcess.place : ServerProcess → Option (Addr × UInt16 × ServerPc)
  | .transferData client bufSize s => some (client, bufSize, s.pc)
  | _ => none

end SelRej

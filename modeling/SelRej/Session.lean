import SelRej.Connection

/-!
# A session

rcopy from its first datagram to the return of `handleConnection`, the server
that waits for clients, and every child that it forks, joined by one network.
The network loses, duplicates, delays, reorders and corrupts datagrams, as in the
setup phase; a corrupted copy is one that the receiver's `interpPDU` rejects.

A child is forked for any datagram that reaches the server, so a request that is
sent or delivered twice is served by two children. Files do not change while they
are served: `fs` gives the contents of the files that `fopen` can open. A process
that has returned or stopped receives nothing any more.
-/
namespace SelRej

/-- A child, how it stopped if it did, and what the file holds that it has opened. -/
structure SessionChild where
  process : ServerProcess
  halt : Option Halt
  file : List UInt8

structure Session where
  rcopy : RcopyProcess
  rcopyHalt : Option Halt
  children : List SessionChild
  network : List Datagram
  written : List PduS

inductive SessionEvent where
  | rcopy (a : Delivery)
  -- `waitForClients` receives a datagram and forks a child
  | fork (a : Delivery) (flag : UInt8)
  | child (j : ℕ) (a : Delivery)
  deriving DecidableEq, Repr

/-- The datagrams among the effects of a step. -/
def posted (src : Addr) (effects : List Effect) : List Datagram :=
  effects.filterMap fun
    | .sendto dst pduBuf => some ⟨src, dst, pduBuf⟩
    | .fwrite _ => none

/-- The packets written in a step. -/
def stored (effects : List Effect) : List PduS :=
  effects.filterMap fun
    | .sendto _ _ => none
    | .fwrite packet => some packet

/-- The length passed to `recvfrom`. -/
def ServerProcess.recvLen : ServerProcess → ℕ
  | .setupResponse _ _ _ _ => MAXBUF
  | .transferData _ bufSize s => Server.recvLen bufSize s.pc
  | .closed => 0

def ServerProcess.running : ServerProcess → Bool
  | .closed => false
  | _ => true

theorem ServerProcess.closed_of_not_running {p : ServerProcess} (h : p.running = false) :
    p = .closed := by
  cases p with
  | closed => rfl
  | setupResponse | transferData => cases h

def RcopyProcess.recvLen (req : Request) : RcopyProcess → ℕ
  | .getInitialResp _ count respBuf => RcopySetup.recvLen req (.getInitialResp count respBuf)
  | .ackInitialResp _ count respBuf => RcopySetup.recvLen req (.ackInitialResp count respBuf)
  | .recvDataLoop _ r => Rcopy.recvLen req.bufSize r.pc
  | .closed => 0

def RcopyProcess.running : RcopyProcess → Bool
  | .closed => false
  | _ => true

theorem RcopyProcess.closed_of_not_running {p : RcopyProcess} (h : p.running = false) :
    p = .closed := by
  cases p with
  | closed => rfl
  | getInitialResp | ackInitialResp | recvDataLoop => cases h

/-- The contents of the file that a request names. -/
def requestedFile (fs : List UInt8 → Option (List UInt8)) (pduBuf : List UInt8) : List UInt8 :=
  match interpPDU pduBuf with
  | .ok (some packet) =>
      match ServerChild.readInfile packet.payload with
      | .ok infile => (fs infile).getD []
      | .error _ => []
  | _ => []

namespace Session

def rcopyStep (req : Request) (x : Session) (recv : Recv) : Session :=
  match x.rcopy.step req recv with
  | ⟨out, .ok rcopy⟩ => { x with
      rcopy
      network := x.network ++ posted .rcopy out
      written := x.written ++ stored out }
  | ⟨out, .error e⟩ => { x with
      rcopyHalt := some e
      network := x.network ++ posted .rcopy out
      written := x.written ++ stored out }

def fork (fs : List UInt8 → Option (List UInt8)) (x : Session) (client : Addr)
    (pduBuf : List UInt8) (flag : UInt8) : Session :=
  let file := requestedFile fs pduBuf
  match ServerProcess.start (fun infile => (fs infile).isSome) client pduBuf flag file with
  | ⟨out, .ok process⟩ => { x with
      children := x.children ++ [⟨process, none, file⟩]
      network := x.network ++ posted (.child x.children.length) out }
  | ⟨out, .error e⟩ => { x with
      children := x.children ++ [⟨.closed, some e, file⟩]
      network := x.network ++ posted (.child x.children.length) out }

def childStep (x : Session) (j : ℕ) (c : SessionChild) (recv : Recv) : Session :=
  match c.process.step c.file recv with
  | ⟨out, .ok process⟩ => { x with
      children := x.children.set j { c with process }
      network := x.network ++ posted (.child j) out }
  | ⟨out, .error e⟩ => { x with
      children := x.children.set j { c with halt := some e }
      network := x.network ++ posted (.child j) out }

def step (fs : List UInt8 → Option (List UInt8)) (req : Request) (x : Session) :
    SessionEvent → Option Session
  | .rcopy a =>
      if x.rcopyHalt = none ∧ x.rcopy.running then
        (a.receive x.network .rcopy (x.rcopy.recvLen req)).map (x.rcopyStep req)
      else none
  | .fork a flag =>
      match a.receive x.network .server MAXBUF with
      | some (some (src, bytes)) => some (x.fork fs src (bytes.take MAXBUF) flag)
      | _ => none
  | .child j a =>
      match x.children[j]? with
      | some c =>
          if c.halt = none ∧ c.process.running then
            (a.receive x.network (.child j) c.process.recvLen).map (x.childStep j c)
          else none
      | none => none

/-- rcopy has sent the INITIAL PDU to the server. -/
def start (req : Request) : Session :=
  match RcopyProcess.start req with
  | ⟨out, .ok rcopy⟩ => ⟨rcopy, none, [], posted .rcopy out, stored out⟩
  | ⟨out, .error e⟩ => ⟨.getInitialResp .server 0 [], some e, [], posted .rcopy out, stored out⟩

/-- The states that a session can reach. -/
def Reachable (fs : List UInt8 → Option (List UInt8)) (req : Request) (x : Session) : Prop :=
  ∃ events, PartialRun.run (step fs req) (start req) events = some x

/-- The bytes rcopy has written to its output file. -/
def output (x : Session) : List UInt8 := x.written.flatMap PduS.payload

variable {fs : List UInt8 → Option (List UInt8)} {req : Request} {x x' : Session} {a : Delivery}
  {flag : UInt8} {j : ℕ}

theorem step_rcopy (h : x.step fs req (.rcopy a) = some x') : x.rcopyHalt = none ∧
    x.rcopy.running = true ∧ ∃ recv, x' = x.rcopyStep req recv ∧
      a.receive x.network .rcopy (x.rcopy.recvLen req) = some recv := by
  dsimp only [step] at h
  split_ifs at h with hruns
  obtain ⟨recv, hrecv, rfl⟩ := Option.map_eq_some_iff.mp h
  exact ⟨hruns.1, hruns.2, recv, rfl, hrecv⟩

theorem step_fork (h : x.step fs req (.fork a flag) = some x') : ∃ src bytes,
    x' = x.fork fs src (bytes.take MAXBUF) flag ∧
      a.receive x.network .server MAXBUF = some (some (src, bytes)) := by
  dsimp only [step] at h
  split at h
  · rename_i src bytes hrecv
    cases h
    exact ⟨src, bytes, rfl, hrecv⟩
  · cases h

theorem step_child (h : x.step fs req (.child j a) = some x') : ∃ c, x.children[j]? = some c ∧
    c.halt = none ∧ c.process.running = true ∧ ∃ recv, x' = x.childStep j c recv ∧
      a.receive x.network (.child j) c.process.recvLen = some recv := by
  dsimp only [step] at h
  split at h
  · rename_i c hc
    split_ifs at h with hruns
    obtain ⟨recv, hrecv, rfl⟩ := Option.map_eq_some_iff.mp h
    exact ⟨c, hc, hruns.1, hruns.2, recv, rfl, hrecv⟩
  · cases h

end Session
end SelRej

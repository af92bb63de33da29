import SelRej.PartialRun
import SelRej.RcopyRuns
import SelRej.Server

/-!
# A transfer

One server child and one rcopy, joined by a network that loses, duplicates,
delays, reorders and corrupts datagrams. The network remembers every datagram
that was sent to either side, and any of them can arrive at any time and any
number of times; one that never arrives is lost. What arrives corrupted is an
arbitrary string of bytes that the receiver's `interpPDU` rejects. Timeouts are
events like any others.

At the start the network may hold datagrams of the setup phase, and rcopy may
still be in `ackInitialResp`. A side that has stopped takes no more steps, but
what it sent before remains.
-/
namespace SelRej

/-- What `pollCall` and `recvfrom` find at one side. -/
inductive Arrival where
  | timeout
  | recv (i : ℕ)
  | corrupt (bytes : List UInt8)
  deriving DecidableEq, Repr

/-- Datagram `i` of the channel, or one that is rejected at the length received. -/
def Arrival.poll (channel : List (List UInt8)) (recvLen : ℕ) : Arrival → Option Poll
  | .timeout => some .timeout
  | .recv i => channel[i]?.map .datagram
  | .corrupt bytes =>
      if interpPDU (bytes.take recvLen) = .ok none then some (.datagram bytes) else none

inductive TransferEvent where
  | server (a : Arrival)
  | rcopy (a : Arrival)
  deriving DecidableEq, Repr

structure Transfer where
  server : Server
  serverHalt : Option Halt
  rcopy : Rcopy
  rcopyHalt : Option Halt
  toServer : List (List UInt8)
  toRcopy : List (List UInt8)
  written : List PduS
  -- the PDUs that the child's `interpPDU` has accepted, in order
  heard : List PduS

/-- The datagrams among rcopy's actions. -/
def datagrams (actions : List Action) : List (List UInt8) :=
  actions.filterMap fun
    | .sendto pduBuf => some pduBuf
    | .fwrite _ => none

namespace Transfer

/-- The PDU that the child accepts in the loop it waits in. A child that has
returned receives nothing. -/
def accepted (bufSize : UInt16) (pc : ServerPc) : Poll → List PduS
  | .timeout => []
  | .datagram bytes =>
      if pc = .returned then []
      else
        match interpPDU (bytes.take (Server.recvLen bufSize pc)) with
        | .ok (some packet) => [packet]
        | _ => []

theorem accepted_returned (bufSize : UInt16) (poll : Poll) : accepted bufSize .returned poll = [] := by
  cases poll with
  | timeout => rfl
  | datagram bytes => rfl

theorem mem_accepted_iff {bufSize : UInt16} {pc : ServerPc} {poll : Poll} {packet : PduS} :
    packet ∈ accepted bufSize pc poll ↔ pc ≠ .returned ∧ ∃ bytes, poll = .datagram bytes ∧
      interpPDU (bytes.take (Server.recvLen bufSize pc)) = .ok (some packet) := by
  cases poll with
  | timeout => simp [accepted]
  | datagram bytes =>
      simp only [accepted]
      split_ifs with hpc
      · simp [hpc]
      · split
        · rename_i read hread
          simp [hpc, hread, eq_comm]
        · rename_i hread
          simpa [hpc] using hread packet

theorem accepted_of_mem {bufSize : UInt16} {pc : ServerPc} {poll : Poll} {packet : PduS}
    (h : packet ∈ accepted bufSize pc poll) : accepted bufSize pc poll = [packet] := by
  obtain ⟨hpc, bytes, rfl, hread⟩ := mem_accepted_iff.mp h
  simp only [accepted, if_neg hpc, hread]

def serverStep (bufSize : UInt16) (t : Transfer) (poll : Poll) : Transfer :=
  let heard := t.heard ++ accepted bufSize t.server.pc poll
  match t.server.step bufSize poll with
  | ⟨out, .ok server⟩ => { t with server, toRcopy := t.toRcopy ++ out, heard }
  | ⟨out, .error e⟩ => { t with serverHalt := some e, toRcopy := t.toRcopy ++ out, heard }

def rcopyStep (bufSize : UInt16) (t : Transfer) (poll : Poll) : Transfer :=
  match t.rcopy.step bufSize poll with
  | ⟨out, .ok rcopy⟩ =>
      { t with
        rcopy
        toServer := t.toServer ++ datagrams out
        written := t.written ++ SelRej.written out }
  | ⟨out, .error e⟩ =>
      { t with
        rcopyHalt := some e
        toServer := t.toServer ++ datagrams out
        written := t.written ++ SelRej.written out }

def step (bufSize : UInt16) (t : Transfer) : TransferEvent → Option Transfer
  | .server a =>
      match t.serverHalt, a.poll t.toServer (Server.recvLen bufSize t.server.pc) with
      | none, some poll => some (t.serverStep bufSize poll)
      | _, _ => none
  | .rcopy a =>
      match t.rcopyHalt, a.poll t.toRcopy (Rcopy.recvLen bufSize t.rcopy.pc) with
      | none, some poll => some (t.rcopyStep bufSize poll)
      | _, _ => none

/-- Both sides at the beginning of the data phase. The child has started with
`transferData`. -/
def start (w : ℕ) (bufSize : UInt16) (file : List UInt8) (toServer toRcopy : List (List UInt8)) :
    Transfer :=
  let t : Transfer := ⟨⟨noWindow, ⟨file, false⟩, 0, .checkForRRs⟩, none, Rcopy.init w, none,
    toServer, toRcopy, [], []⟩
  match Server.init w bufSize file with
  | ⟨out, .ok server⟩ => { t with server, toRcopy := toRcopy ++ out }
  | ⟨out, .error e⟩ => { t with serverHalt := some e, toRcopy := toRcopy ++ out }

/-- A datagram of the setup phase. -/
def Setup (d : List UInt8) : Prop :=
  ∃ seqNum flag payload, d = createPdu seqNum flag payload ∧
    (flag = SETUPRESP_FLAG ∨ flag = INITIAL_FLAG ∨ flag = INITIALRESP_FLAG)

/-- The states that a transfer can reach. -/
def Reachable (w : ℕ) (bufSize : UInt16) (file : List UInt8) (t : Transfer) : Prop :=
  ∃ toServer toRcopy events, (∀ d ∈ toServer, Setup d) ∧ (∀ d ∈ toRcopy, Setup d) ∧
    PartialRun.run (step bufSize) (start w bufSize file toServer toRcopy) events = some t

theorem Reachable.trans {w : ℕ} {bufSize : UInt16} {file : List UInt8} {t t' : Transfer}
    (h : Reachable w bufSize file t) (h' : PartialRun.Reaches (step bufSize) t t') :
    Reachable w bufSize file t' := by
  obtain ⟨toServer, toRcopy, events, hserver, hrcopy, hrun⟩ := h
  obtain ⟨events', hrun'⟩ := h'
  exact ⟨toServer, toRcopy, events ++ events', hserver, hrcopy, PartialRun.run_append hrun hrun'⟩

/-- The bytes rcopy has written to its output file. -/
def output (t : Transfer) : List UInt8 := t.written.flatMap PduS.payload

/-- What can arrive on a channel. -/
inductive Arrives (channel : List (List UInt8)) (recvLen : ℕ) : Poll → Prop where
  | timeout : Arrives channel recvLen .timeout
  | recv {d : List UInt8} (hd : d ∈ channel) : Arrives channel recvLen (.datagram d)
  | corrupt {d : List UInt8} (hd : interpPDU (d.take recvLen) = .ok none) :
      Arrives channel recvLen (.datagram d)

theorem arrives_of_poll {channel : List (List UInt8)} {recvLen : ℕ} {a : Arrival} {poll : Poll}
    (h : a.poll channel recvLen = some poll) : Arrives channel recvLen poll := by
  cases a with
  | timeout =>
      cases h
      exact .timeout
  | recv i =>
      obtain ⟨d, hd, hpoll⟩ := Option.map_eq_some_iff.mp h
      subst hpoll
      exact .recv (List.mem_of_getElem? hd)
  | corrupt bytes =>
      dsimp only [Arrival.poll] at h
      split_ifs at h with hreject
      cases h
      exact .corrupt hreject

variable {bufSize : UInt16} {t t' : Transfer} {a : Arrival}

theorem step_server (h : t.step bufSize (.server a) = some t') :
    t.serverHalt = none ∧ ∃ poll, t' = t.serverStep bufSize poll ∧
      a.poll t.toServer (Server.recvLen bufSize t.server.pc) = some poll := by
  dsimp only [step] at h
  split at h
  · rename_i poll hhalt hpoll
    cases h
    exact ⟨hhalt, poll, rfl, hpoll⟩
  · cases h

theorem step_rcopy (h : t.step bufSize (.rcopy a) = some t') :
    t.rcopyHalt = none ∧ ∃ poll, t' = t.rcopyStep bufSize poll ∧
      a.poll t.toRcopy (Rcopy.recvLen bufSize t.rcopy.pc) = some poll := by
  dsimp only [step] at h
  split at h
  · rename_i poll hhalt hpoll
    cases h
    exact ⟨hhalt, poll, rfl, hpoll⟩
  · cases h

theorem serverStep_eq {poll : Poll} {out : List (List UInt8)} {s' : Server}
    (h : t.server.step bufSize poll = ⟨out, .ok s'⟩) :
    t.serverStep bufSize poll = { t with
      server := s'
      toRcopy := t.toRcopy ++ out
      heard := t.heard ++ accepted bufSize t.server.pc poll } := by
  unfold serverStep
  rw [h]

theorem rcopyStep_eq {poll : Poll} {out : List Action} {r' : Rcopy}
    (h : t.rcopy.step bufSize poll = ⟨out, .ok r'⟩) :
    t.rcopyStep bufSize poll = { t with
      rcopy := r'
      toServer := t.toServer ++ datagrams out
      written := t.written ++ SelRej.written out } := by
  unfold rcopyStep
  rw [h]

theorem step_server_timeout (h : t.serverHalt = none) :
    t.step bufSize (.server .timeout) = some (t.serverStep bufSize .timeout) := by
  simp only [step, h, Arrival.poll]

theorem step_server_recv (h : t.serverHalt = none) {i : ℕ} {d : List UInt8}
    (hd : t.toServer[i]? = some d) :
    t.step bufSize (.server (.recv i)) = some (t.serverStep bufSize (.datagram d)) := by
  simp only [step, h, Arrival.poll, hd, Option.map_some]

theorem step_rcopy_recv (h : t.rcopyHalt = none) {i : ℕ} {d : List UInt8}
    (hd : t.toRcopy[i]? = some d) :
    t.step bufSize (.rcopy (.recv i)) = some (t.rcopyStep bufSize (.datagram d)) := by
  simp only [step, h, Arrival.poll, hd, Option.map_some]

end Transfer
end SelRej

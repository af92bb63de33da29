import SelRej.ClosingLoop

/-!
# A transfer can always be completed

Whatever has been lost, from every state of the data phase in which both sides
run there is a continuation that completes the transfer. It does not rely on
what a network may do at its best: everything under way is lost, and what is
sent from then on is delivered in order, at most once, or lost.

While its window is open the child goes on sending. When the window is full or
the file is exhausted, it sends its lowest packet again after a timeout; rcopy
acknowledges a number above it, whatever it holds, and the RR opens the window.
The rank counts what has not been sent and what has not been acknowledged.
-/
namespace SelRej
open PartialRun ReorderBuffer

/-- A transfer, and the first datagrams of both channels that have been neither
delivered nor lost. -/
structure Ordered where
  transfer : Transfer
  nextServer : ℕ
  nextRcopy : ℕ

/-- Both sides have completed the transfer: rcopy has the whole file and the EOF,
and the child has the ACKEOF. -/
structure Transfer.Complete (file : List UInt8) (t : Transfer) : Prop where
  serverHalt : t.serverHalt = none
  rcopyHalt : t.rcopyHalt = none
  finished : t.rcopy.pc = .finished
  output : t.output = file
  returned : t.server.pc = .returned
  acked : ∃ packet, t.heard.getLast? = some packet ∧ packet.flag = ACKEOF_FLAG

namespace Ordered

/-- Timeouts of the child, and deliveries in order; a datagram that is passed
over is lost. -/
def step (bufSize : UInt16) (x : Ordered) : TransferEvent → Option Ordered
  | .server .timeout =>
      (x.transfer.step bufSize (.server .timeout)).map fun t => { x with transfer := t }
  | .server (.recv i) =>
      if x.nextServer ≤ i then
        (x.transfer.step bufSize (.server (.recv i))).map fun t =>
          { x with transfer := t, nextServer := i + 1 }
      else none
  | .rcopy (.recv i) =>
      if x.nextRcopy ≤ i then
        (x.transfer.step bufSize (.rcopy (.recv i))).map fun t =>
          { x with transfer := t, nextRcopy := i + 1 }
      else none
  | _ => none

variable {w : ℕ} {bufSize : UInt16} {file : List UInt8} {x x' : Ordered} {lo n : ℕ}
  {b : ReorderBuffer PduS}

theorem transfer_step {e : TransferEvent} (h : x.step bufSize e = some x') :
    x.transfer.step bufSize e = some x'.transfer := by
  unfold step at h
  split at h
  · obtain ⟨t, ht, rfl⟩ := Option.map_eq_some_iff.mp h
    exact ht
  · split_ifs at h
    obtain ⟨t, ht, rfl⟩ := Option.map_eq_some_iff.mp h
    exact ht
  · split_ifs at h
    obtain ⟨t, ht, rfl⟩ := Option.map_eq_some_iff.mp h
    exact ht
  · cases h

theorem transfer_run {events : List TransferEvent} (h : run (step bufSize) x events = some x') :
    run (Transfer.step bufSize) x.transfer events = some x'.transfer := by
  induction events generalizing x with
  | nil =>
      cases h
      rfl
  | cons e events ih =>
      obtain ⟨y, hy, hrun⟩ := run_cons_iff.mp h
      exact run_cons (transfer_step hy) (ih hrun)

def ToServer (x : Ordered) (d : List UInt8) : Prop :=
  ∃ i, x.nextServer ≤ i ∧ x.transfer.toServer[i]? = some d

def ToRcopy (x : Ordered) (d : List UInt8) : Prop :=
  ∃ i, x.nextRcopy ≤ i ∧ x.transfer.toRcopy[i]? = some d

theorem exists_index {channel out : List (List UInt8)} {next : ℕ} (hnext : next ≤ channel.length)
    {d : List UInt8} (hd : d ∈ out) : ∃ i, next ≤ i ∧ (channel ++ out)[i]? = some d := by
  obtain ⟨i, hi⟩ := List.mem_iff_getElem?.mp hd
  refine ⟨channel.length + i, Nat.le_trans hnext (Nat.le_add_right _ i), ?_⟩
  rw [List.getElem?_append_right (Nat.le_add_right _ _), Nat.add_sub_cancel_left, hi]

theorem step_timeout (hhalt : x.transfer.serverHalt = none) {out : List (List UInt8)} {s' : Server}
    (h : x.transfer.server.step bufSize .timeout = ⟨out, .ok s'⟩) :
    x.step bufSize (.server .timeout) = some { x with transfer := { x.transfer with
      server := s'
      toRcopy := x.transfer.toRcopy ++ out } } := by
  rw [step, Transfer.step_server_timeout hhalt, Transfer.serverStep_eq h, Transfer.accepted,
    List.append_nil]
  rfl

theorem step_server_recv (hhalt : x.transfer.serverHalt = none) {i : ℕ} {d : List UInt8}
    (hnext : x.nextServer ≤ i) (hd : x.transfer.toServer[i]? = some d) {out : List (List UInt8)}
    {s' : Server} (h : x.transfer.server.step bufSize (.datagram d) = ⟨out, .ok s'⟩) :
    x.step bufSize (.server (.recv i)) = some { x with
      transfer := { x.transfer with
        server := s'
        toRcopy := x.transfer.toRcopy ++ out
        heard := x.transfer.heard ++
          Transfer.accepted bufSize x.transfer.server.pc (.datagram d) }
      nextServer := i + 1 } := by
  rw [step, if_pos hnext, Transfer.step_server_recv hhalt hd, Transfer.serverStep_eq h]
  rfl

theorem step_rcopy_recv (hhalt : x.transfer.rcopyHalt = none) {i : ℕ} {d : List UInt8}
    (hnext : x.nextRcopy ≤ i) (hd : x.transfer.toRcopy[i]? = some d) {out : List Action}
    {r' : Rcopy} (h : x.transfer.rcopy.step bufSize (.datagram d) = ⟨out, .ok r'⟩) :
    x.step bufSize (.rcopy (.recv i)) = some { x with
      transfer := { x.transfer with
        rcopy := r'
        toServer := x.transfer.toServer ++ datagrams out
        written := x.transfer.written ++ written out }
      nextRcopy := i + 1 } := by
  rw [step, if_pos hnext, Transfer.step_rcopy_recv hhalt hd, Transfer.rcopyStep_eq h]
  rfl

/-- The child has time left. -/
def Patient : ServerPc → Prop
  | .checkForRRs => True
  | .openWindow count _ | .processEof count _ _ => count ≤ 8
  | .returned => False

theorem patient_of_entered {pc : ServerPc} (h : Entered pc) : Patient pc := by
  cases pc with
  | checkForRRs => trivial
  | openWindow count caller =>
      rw [show count = 0 from h]
      exact Nat.zero_le 8
  | processEof count flag respBuf =>
      rw [show count = 0 from h.1]
      exact Nat.zero_le 8
  | returned => exact h

structure Live (w : ℕ) (bufSize : UInt16) (file : List UInt8) (x : Ordered) (lo n : ℕ)
    (b : ReorderBuffer PduS) : Prop where
  joint : Joint w bufSize file x.transfer lo n b
  serverHalt : x.transfer.serverHalt = none
  rcopyHalt : x.transfer.rcopyHalt = none
  started : x.transfer.rcopy.pc ≠ .start
  unfinished : x.transfer.rcopy.pc ≠ .finished
  nextServer_le : x.nextServer ≤ x.transfer.toServer.length
  nextRcopy_le : x.nextRcopy ≤ x.transfer.toRcopy.length

/-- What is not yet sent, what is not yet acknowledged, and whether the child
may still send before it waits. -/
def rank (file : List UInt8) (bufSize : UInt16) (lo n : ℕ) (pc : ServerPc) : ℕ :=
  2 * ((packets file bufSize - lo) + (packets file bufSize - n)) +
    if pc = .checkForRRs then 1 else 0

theorem rank_le (file : List UInt8) (bufSize : UInt16) (lo n : ℕ) (pc : ServerPc) :
    rank file bufSize lo n pc ≤
      2 * ((packets file bufSize - lo) + (packets file bufSize - n)) + 1 := by
  unfold rank
  split_ifs <;> omega

theorem rank_of_ne {pc : ServerPc} (h : pc ≠ .checkForRRs) : rank file bufSize lo n pc =
    2 * ((packets file bufSize - lo) + (packets file bufSize - n)) := by
  rw [rank, if_neg h, Nat.add_zero]

theorem Live.timeout (h : Live w bufSize file x lo n b) {out : List (List UInt8)} {s' : Server}
    {n' : ℕ} (hstep : x.transfer.server.step bufSize .timeout = ⟨out, .ok s'⟩)
    (hserves : Serves w bufSize file s' lo n') (hn : n ≤ n')
    (hout : ∀ d ∈ out, ServerSends bufSize file lo n' d)
    (hsent : ∀ k, n ≤ k → k < n' → dataBytes file bufSize k ∈ out) : ∃ y,
    Reaches (step bufSize) x y ∧ Live w bufSize file y lo n' b ∧ y.transfer.server = s' ∧
      y.transfer.rcopy = x.transfer.rcopy ∧ ∀ d ∈ out, y.ToRcopy d := by
  have hnext := h.nextRcopy_le
  refine ⟨_, Reaches.single (step_timeout h.serverHalt hstep),
    ⟨h.joint.server_waits hserves (Nat.le_refl lo) hn h.joint.lo_le hout hsent, h.serverHalt,
      h.rcopyHalt, h.started, h.unfinished, h.nextServer_le, ?_⟩, rfl, rfl,
    fun d hd => exists_index hnext hd⟩
  simp only [List.length_append]
  omega

/-- The child waits again after a datagram. -/
theorem Live.server_recv (h : Live w bufSize file x lo n b) {d : List UInt8} (hd : x.ToServer d)
    {out : List (List UInt8)} {s' : Server} {lo' n' : ℕ}
    (hstep : x.transfer.server.step bufSize (.datagram d) = ⟨out, .ok s'⟩)
    (hserves : Serves w bufSize file s' lo' n') (hlo : lo ≤ lo') (hn : n ≤ n')
    (hrr : lo' ≤ b.next) (hout : ∀ d ∈ out, ServerSends bufSize file lo' n' d)
    (hsent : ∀ k, n ≤ k → k < n' → dataBytes file bufSize k ∈ out) : ∃ y,
    Reaches (step bufSize) x y ∧ Live w bufSize file y lo' n' b ∧ y.transfer.server = s' := by
  obtain ⟨i, hi, hget⟩ := hd
  have hnext := h.nextRcopy_le
  refine ⟨_, Reaches.single (step_server_recv h.serverHalt hi hget hstep),
    ⟨h.joint.server_waits hserves hlo hn hrr hout hsent, h.serverHalt, h.rcopyHalt, h.started,
      h.unfinished, (List.getElem?_eq_some_iff.mp hget).1, ?_⟩, rfl⟩
  simp only [List.length_append]
  omega

theorem recvDataLoopTest_started (r : Rcopy) (lastFlag : UInt8) :
    (recvDataLoopTest r lastFlag).pc ≠ .start := by
  unfold recvDataLoopTest
  split_ifs <;> simp

theorem handleSrejTest_started (r : Rcopy) (lastFlag : UInt8) :
    (handleSrejTest r lastFlag).pc ≠ .start := by
  unfold handleSrejTest
  split_ifs
  · exact recvDataLoopTest_started _ lastFlag
  · simp

theorem processPacket_started (r : Rcopy) (packet : PduS) :
    (processPacket r packet).Ends fun r' => r'.pc ≠ .start := by
  unfold processPacket
  split_ifs
  · unfold processDataPacket
    split_ifs
    · unfold Rcopy.handleSrej
      refine Emit.ends_bind fun r' => Emit.ends_lift fun answer _ => ?_
      dsimp only
      split_ifs
      · exact Emit.ends_halt
      · exact Emit.ends_pure (handleSrejTest_started _ DATA_FLAG)
    · exact Emit.ends_emit (Emit.ends_bind fun r' =>
        Emit.ends_pure (recvDataLoopTest_started r' DATA_FLAG))
    · exact Emit.ends_bind fun r' => Emit.ends_pure (recvDataLoopTest_started r' DATA_FLAG)
  · exact Emit.ends_emit (Emit.ends_pure (recvDataLoopTest_started r EOF_FLAG))
  · exact Emit.ends_pure (recvDataLoopTest_started r packet.flag)

theorem receive_started {r : Rcopy} (h : r.pc ≠ .start) (packet : PduS) :
    (r.receive packet).Ends fun r' => r'.pc ≠ .start := by
  unfold Rcopy.receive
  cases hpc : r.pc with
  | start => exact absurd hpc h
  | recvDataLoop => exact processPacket_started r packet
  | handleSrej lastFlag =>
      exact Emit.ends_bind fun answer => Emit.ends_pure (handleSrejTest_started _ _)
  | finished => exact Emit.ends_pure (by rw [hpc]; simp)

theorem Live.rcopy_data (h : Live w bufSize file x lo n b) (hp : Params w bufSize file) {k : ℕ}
    (hk : k < n) (hd : x.ToRcopy (dataBytes file bufSize k)) : ∃ y,
    Reaches (step bufSize) x y ∧
      Live w bufSize file y lo n (b.arrive k (dataPacket file bufSize k)).2 ∧
      y.transfer.server = x.transfer.server ∧
      ∀ d ∈ datagrams (wire x.transfer.rcopy.mySeq (b.arrive k (dataPacket file bufSize k)).1),
        y.ToServer d := by
  obtain ⟨i, hi, hget⟩ := hd
  have hnext := h.nextServer_le
  have hread := hp.rcopy_reads_dataBytes x.transfer.rcopy.pc k
  obtain ⟨r', hreceive, hpc, hjoint⟩ := h.joint.data_step hp hk h.unfinished
  have hstarted := receive_started h.started (dataPacket file bufSize k) r' (by rw [hreceive])
  refine ⟨_, Reaches.single (step_rcopy_recv h.rcopyHalt hi hget
    ((Rcopy.step_accepted hread).trans hreceive)), ⟨hjoint, h.serverHalt, h.rcopyHalt, hstarted, hpc,
      ?_, (List.getElem?_eq_some_iff.mp hget).1⟩, rfl, fun d hd => exists_index hnext hd⟩
  simp only [List.length_append]
  omega

/-- In `checkForRRs` the child sends the next packet, or it enters another loop. -/
theorem Live.checkForRRs (h : Live w bufSize file x lo n b) (hp : Params w bufSize file)
    (hpc : x.transfer.server.pc = .checkForRRs) : ∃ x' n',
    Reaches (step bufSize) x x' ∧ Live w bufSize file x' lo n' b ∧
      Patient x'.transfer.server.pc ∧ rank file bufSize lo n' x'.transfer.server.pc <
        rank file bufSize lo n x.transfer.server.pc := by
  have hserves := h.joint.serves
  have hplace := hserves.place
  rw [hpc] at hplace
  obtain ⟨out, s', n', hrest, hserves', hn, hout, hsent, hadvance⟩ :=
    transferDataRest_advances hserves.holding hp hplace.2
  have hstep : x.transfer.server.step bufSize .timeout = ⟨out, .ok s'⟩ :=
    (Server.step_checkForRRs hpc).1.trans hrest
  have hentered : Entered s'.pc :=
    transferDataRest_entered bufSize x.transfer.server s' (by rw [hrest])
  obtain ⟨y, hreaches, hlive, rfl, _⟩ := h.timeout hstep hserves' hn hout hsent
  refine ⟨y, n', hreaches, hlive, patient_of_entered hentered, ?_⟩
  have hle := hserves'.holding.le
  have hbound := rank_le file bufSize lo n' y.transfer.server.pc
  have hrank : rank file bufSize lo n x.transfer.server.pc =
      2 * ((packets file bufSize - lo) + (packets file bufSize - n)) + 1 := by
    rw [hpc, rank, if_pos rfl]
  rw [hrank]
  rcases hadvance with hlt | hne
  · omega
  · rw [rank_of_ne hne]
    omega

theorem step_rr {s : Server} (h : Serves w bufSize file s lo n) (hp : Params w bufSize file)
    {count : ℕ} {caller : Caller} (hpc : s.pc = .openWindow count caller) (mySeq : UInt32) {k : ℕ}
    (hk : lo ≤ k) (hk' : k ≤ n) : ∃ win',
    s.step bufSize (.datagram (createPdu mySeq RR_FLAG (htonl (UInt32.ofNat k)))) =
        Server.openWindowReturn bufSize { s with win := win' } caller ∧
      Holding w bufSize file win' s.input k n := by
  have hplace := h.place
  rw [hpc] at hplace
  obtain ⟨_, hlt, _, _⟩ := hplace
  have hfew := hp.few
  have hle := h.holding.le
  have hnum : (UInt32.ofNat k).toNat = k :=
    UInt32.toNat_ofNat_of_lt' (show k < 4294967296 by omega)
  rcases h.holding.recvRR_cases hp (by omega) (UInt32.ofNat k) with
    ⟨heq, _⟩ | ⟨_, hout, _⟩ | ⟨_, _, _, win', hrecv, hholding⟩
  · omega
  · omega
  · rw [hnum] at hholding
    refine ⟨win', ?_, hholding⟩
    have hread := interpPDU_take_of_le mySeq RR_FLAG
      (show (htonl (UInt32.ofNat k)).length ≤ 65528 by simp)
      (show 7 + (htonl (UInt32.ofNat k)).length ≤
        Server.recvLen bufSize (.openWindow count caller) from Nat.le_refl 11)
    rw [(Server.step_openWindow hpc).2]
    unfold Server.openWindowRecv
    rw [hread, Emit.liftM_eq, Emit.bind_silent]
    dsimp only [decoded]
    rw [if_neg (by decide), if_pos rfl, readSeq_htonl, Emit.liftM_eq, Emit.bind_silent, hrecv,
      Emit.liftM_eq, Emit.bind_silent]

/-- An RR above the lower bound opens the window. -/
theorem Live.openWindow_rr (h : Live w bufSize file x lo n b) (hp : Params w bufSize file)
    {count : ℕ} {caller : Caller} (hpc : x.transfer.server.pc = .openWindow count caller)
    {mySeq : UInt32} {j : ℕ} (hrr : x.ToServer (createPdu mySeq RR_FLAG (htonl (UInt32.ofNat j))))
    (hlo : lo < j) (hj : j ≤ b.next) : ∃ x' lo' n',
    Reaches (step bufSize) x x' ∧ Live w bufSize file x' lo' n' b ∧
      Patient x'.transfer.server.pc ∧ rank file bufSize lo' n' x'.transfer.server.pc <
        rank file bufSize lo n x.transfer.server.pc := by
  have hserves := h.joint.serves
  have hplace := hserves.place
  rw [hpc] at hplace
  obtain ⟨_, _, hseq, hcaller⟩ := hplace
  have hnext := h.joint.simulates.wellFormed.next_le
  have hseen := h.joint.seen_le
  obtain ⟨win', hstep, hholding⟩ := step_rr hserves hp hpc mySeq (show lo ≤ j by omega)
    (show j ≤ n by omega)
  obtain ⟨hgoes, hok⟩ := openWindowReturn_goes (s := { x.transfer.server with win := win' })
    (f := b.next) hholding hp hseq (by omega) hcaller
  have hentered := openWindowReturn_entered bufSize { x.transfer.server with win := win' } caller
  generalize Server.openWindowReturn bufSize { x.transfer.server with win := win' } caller = p
    at hstep hgoes hok hentered
  cases hgoes with
  | stops hout =>
      obtain ⟨s', hs'⟩ := hok
      cases hs'
  | @waits out s' lo' n' hserves' hlo' hn hrr' hout hdata =>
      have hopen : lo' ≤ b.next := by omega
      obtain ⟨y, hreaches, hlive, rfl⟩ :=
        h.server_recv hrr hstep hserves' (by omega) hn hopen hout hdata
      refine ⟨y, lo', n', hreaches, hlive, patient_of_entered (hentered _ rfl), ?_⟩
      have hle := hserves'.holding.le
      have hlole := hserves'.holding.lo_le
      have hbound := rank_le file bufSize lo' n' y.transfer.server.pc
      have hrank : rank file bufSize lo n x.transfer.server.pc =
          2 * ((packets file bufSize - lo) + (packets file bufSize - n)) :=
        rank_of_ne (by rw [hpc]; simp)
      omega

/-- In `openWindow` the child sends its lowest packet after a timeout, and the
RR that comes back opens the window. -/
theorem Live.openWindow (h : Live w bufSize file x lo n b) (hp : Params w bufSize file)
    {count : ℕ} {caller : Caller} (hpc : x.transfer.server.pc = .openWindow count caller)
    (hcount : count ≤ 8) : ∃ x' lo' n' b',
    Reaches (step bufSize) x x' ∧ Live w bufSize file x' lo' n' b' ∧
      Patient x'.transfer.server.pc ∧ rank file bufSize lo' n' x'.transfer.server.pc <
        rank file bufSize lo n x.transfer.server.pc := by
  have hserves := h.joint.serves
  have hplace := hserves.place
  rw [hpc] at hplace
  obtain ⟨_, hlt, hseq, hcaller⟩ := hplace
  have hresend : x.transfer.server.step bufSize .timeout = ⟨[dataBytes file bufSize lo],
      .ok { x.transfer.server with pc := .openWindow (count + 1) caller }⟩ := by
    rw [(Server.step_openWindow hpc).1, openWindowTimeout_eq hserves.holding hlt,
      if_pos (by omega)]
  obtain ⟨y, hreaches, h₁, hserver, _, hsent⟩ := h.timeout hresend
    ⟨hserves.holding, show count + 1 ≤ 9 by omega, hlt, hseq, hcaller⟩ (Nat.le_refl n)
    (sends_singleton (.data hlt)) (fun k hk hk' => by omega)
  obtain ⟨z, hreaches', h₂, hserver', hsent'⟩ :=
    h₁.rcopy_data hp hlt (hsent _ (List.mem_singleton_self _))
  have hpc' : z.transfer.server.pc = .openWindow (count + 1) caller := by
    rw [hserver', hserver]
  obtain ⟨j, hj, hack⟩ := arrive_acks (dataPacket file bufSize lo) h.joint.lo_le
  obtain ⟨mySeq, hrr⟩ := mem_datagrams_of_ack y.transfer.rcopy.mySeq hack
  obtain ⟨x', lo', n', hreaches'', h₃, hpatient, hrank⟩ :=
    h₂.openWindow_rr hp hpc' (hsent' _ hrr) hj (arrive_ack_le hack)
  have hsame : rank file bufSize lo n z.transfer.server.pc =
      rank file bufSize lo n x.transfer.server.pc := by
    rw [hpc', hpc]
    rfl
  exact ⟨x', lo', n', _, (hreaches.trans hreaches').trans hreaches'', h₃, hpatient,
    hsame ▸ hrank⟩

theorem Live.rcopy_eof (h : Live w bufSize file x lo n b) (hp : Params w bufSize file)
    (hlo : lo = n) (hn : n = packets file bufSize) {mySeq : UInt32}
    (hd : x.ToRcopy (createPdu mySeq EOF_FLAG [])) : ∃ y,
    Reaches (step bufSize) x y ∧ Joint w bufSize file y.transfer lo n b ∧
      y.transfer.serverHalt = none ∧ y.transfer.rcopyHalt = none ∧
      y.transfer.rcopy.pc = .finished ∧ y.transfer.server = x.transfer.server ∧
      y.ToServer (createPdu x.transfer.rcopy.mySeq ACKEOF_FLAG []) := by
  obtain ⟨i, hi, hget⟩ := hd
  have hlole := h.joint.lo_le
  have hseen := h.joint.seen_le
  have hle := h.joint.simulates.wellFormed.next_le
  have hloop : x.transfer.rcopy.pc = .recvDataLoop := by
    obtain ⟨_, hstart | hloop | hfinished⟩ := h.joint.simulates.idle (show b.next = b.seen by omega)
    · exact absurd hstart h.started
    · exact hloop
    · exact absurd hfinished h.unfinished
  obtain ⟨packet, hread, hflag⟩ : ∃ packet, interpPDU ((createPdu mySeq EOF_FLAG []).take
      (Rcopy.recvLen bufSize x.transfer.rcopy.pc)) = .ok (some packet) ∧ packet.flag = EOF_FLAG :=
    ⟨_, interpPDU_take_of_le mySeq EOF_FLAG (Nat.zero_le _) (Nat.le_trans
      (Nat.le_add_left 7 bufSize.toNat) (hp.rcopyRecvLen x.transfer.rcopy.pc).1), rfl⟩
  have heof := Simulates.receive_eof hloop hflag
  obtain ⟨out, r', hreceive, hjoint⟩ := h.joint.control_step (by rw [hflag]; decide)
    (fun _ => ⟨hlo, hn⟩)
  rw [heof] at hreceive
  cases hreceive
  exact ⟨_, Reaches.single (step_rcopy_recv h.rcopyHalt hi hget
    ((Rcopy.step_accepted hread).trans heof)), hjoint, h.serverHalt, h.rcopyHalt, rfl, rfl,
    exists_index h.nextServer_le (List.mem_singleton_self _)⟩

/-- An ACKEOF ends the loop of `processEof`. -/
theorem step_ackEof {s : Server} (hp : Params w bufSize file) {count : ℕ} {flag : UInt8}
    {respBuf : List UInt8} (hpc : s.pc = .processEof count flag respBuf) (hcount : count ≤ 9)
    (mySeq : UInt32) : s.step bufSize (.datagram (createPdu mySeq ACKEOF_FLAG [])) =
        ⟨[], .ok { s with pc := .returned }⟩ ∧
      ∃ packet, Transfer.accepted bufSize s.pc (.datagram (createPdu mySeq ACKEOF_FLAG [])) =
        [packet] ∧ packet.flag = ACKEOF_FLAG := by
  have hread := interpPDU_take_of_le mySeq ACKEOF_FLAG
    (show ([] : List UInt8).length ≤ 65528 by decide) (hp.recvLen_bounds s.pc).1
  have hacc := Transfer.mem_accepted_iff.mpr ⟨by rw [hpc]; simp, _, rfl, hread⟩
  exact ⟨step_accepts hpc hcount hacc, _, Transfer.accepted_of_mem hacc, rfl⟩

/-- In the loop of `processEof` the child sends the EOF again after a timeout,
and rcopy, which has everything, acknowledges it. -/
theorem Live.processEof (h : Live w bufSize file x lo n b) (hp : Params w bufSize file)
    {count : ℕ} {flag : UInt8} {respBuf : List UInt8}
    (hpc : x.transfer.server.pc = .processEof count flag respBuf) (hcount : count ≤ 8) :
    ∃ x', Reaches (step bufSize) x x' ∧ x'.transfer.Complete file := by
  have hserves := h.joint.serves
  have hplace := hserves.place
  rw [hpc] at hplace
  obtain ⟨_, hflag, hread, hlo, hn⟩ := hplace
  have hresend : x.transfer.server.step bufSize .timeout =
      ⟨[createPdu x.transfer.server.seqNum EOF_FLAG []], .ok { x.transfer.server with
        seqNum := x.transfer.server.seqNum + 1
        pc := .processEof (count + 1) flag respBuf }⟩ := by
    rw [(Server.step_processEof hpc).1, processEofTimeout_eq,
      processEofTest_waits (by omega) hflag hread]
  obtain ⟨y, hreaches, h₁, hserver, hrcopy, hsent⟩ := h.timeout hresend
    ⟨hserves.holding, show count + 1 ≤ 9 by omega, hflag, hread, hlo, hn⟩ (Nat.le_refl n)
    (sends_singleton (.eof x.transfer.server.seqNum hlo hn)) (fun k hk hk' => by omega)
  obtain ⟨z, hreaches', hjoint, hhalt, hhalt', hfinished, hserver', i, hi, hget⟩ :=
    h₁.rcopy_eof hp hlo hn (hsent _ (List.mem_singleton_self _))
  rw [hserver] at hserver'
  obtain ⟨hreturned, packet, hacc, hack⟩ := step_ackEof (s := z.transfer.server) hp
    (by rw [hserver']) (show count + 1 ≤ 9 by omega) y.transfer.rcopy.mySeq
  have houtput := Transfer.output_of_finished hjoint hp hfinished
  refine ⟨_, (hreaches.trans hreaches').trans
    (Reaches.single (step_server_recv hhalt hi hget hreturned)), hhalt, hhalt', hfinished, houtput,
    rfl, packet, ?_, hack⟩
  simp only [hacc, List.getLast?_concat]

/-- From every such state the transfer can be completed. -/
theorem Live.finishes (hp : Params w bufSize file) (h : Live w bufSize file x lo n b)
    (hpatient : Patient x.transfer.server.pc) :
    ∃ x', Reaches (step bufSize) x x' ∧ x'.transfer.Complete file := by
  induction hrank : rank file bufSize lo n x.transfer.server.pc using Nat.strongRecOn
    generalizing x lo n b with
  | ind r ih =>
      cases hpc : x.transfer.server.pc with
      | checkForRRs =>
          obtain ⟨y, n', hreaches, hlive, hpatient', hless⟩ := h.checkForRRs hp hpc
          obtain ⟨x', hreaches', hcomplete⟩ := ih _ (hrank ▸ hless) hlive hpatient' rfl
          exact ⟨x', hreaches.trans hreaches', hcomplete⟩
      | openWindow count caller =>
          rw [hpc] at hpatient
          obtain ⟨y, lo', n', b', hreaches, hlive, hpatient', hless⟩ := h.openWindow hp hpc hpatient
          obtain ⟨x', hreaches', hcomplete⟩ := ih _ (hrank ▸ hless) hlive hpatient' rfl
          exact ⟨x', hreaches.trans hreaches', hcomplete⟩
      | processEof count flag respBuf =>
          rw [hpc] at hpatient
          exact h.processEof hp hpc hpatient
      | returned =>
          rw [hpc] at hpatient
          exact hpatient.elim

end Ordered
/-- From every reachable state in which both sides run and the child is not in
its last second, the child's timeouts and the delivery, in order and at most
once, of some of what is sent from then on complete the transfer. -/
theorem Transfer.completes {w : ℕ} {bufSize : UInt16} {file : List UInt8} {t : Transfer}
    (hp : Params w bufSize file) (h : Transfer.Reachable w bufSize file t)
    (hserver : t.serverHalt = none) (hrcopy : t.rcopyHalt = none)
    (hloop : t.rcopy.pc = .recvDataLoop ∨ ∃ lastFlag, t.rcopy.pc = .handleSrej lastFlag)
    (hpatient : t.server.pc = .checkForRRs ∨
      ∃ count caller, t.server.pc = .openWindow count caller ∧ count ≤ 8) :
    ∃ events x, run (Ordered.step bufSize) ⟨t, t.toServer.length, t.toRcopy.length⟩ events = some x ∧
      run (Transfer.step bufSize) t events = some x.transfer ∧ x.transfer.Complete file := by
  obtain ⟨lo, n, b, hjoint⟩ := joint_reachable hp h
  have hlive : Ordered.Live w bufSize file ⟨t, t.toServer.length, t.toRcopy.length⟩ lo n b := by
    refine ⟨hjoint, hserver, hrcopy, ?_, ?_, Nat.le_refl _, Nat.le_refl _⟩
    · rcases hloop with hpc | ⟨lastFlag, hpc⟩ <;> simp [hpc]
    · rcases hloop with hpc | ⟨lastFlag, hpc⟩ <;> simp [hpc]
  have hpatient' : Ordered.Patient t.server.pc := by
    rcases hpatient with hpc | ⟨count, caller, hpc, hcount⟩
    · rw [hpc]
      trivial
    · rw [hpc]
      exact hcount
  obtain ⟨x, ⟨events, hrun⟩, hcomplete⟩ := hlive.finishes hp hpatient'
  exact ⟨events, x, hrun, Ordered.transfer_run hrun, hcomplete⟩

/-- The first packet has been delivered, and its RR is lost. -/
theorem Transfer.completes_lost_rr : ∃ t, Transfer.Reachable 1 2 [1, 2, 3] t ∧
    t.output = [1, 2] ∧ ∃ events x, run (Transfer.step 2) t events = some x ∧
      x.Complete [1, 2, 3] := by
  have hrun : (run (Transfer.step 2) (Transfer.start 1 2 [1, 2, 3] [] []) [.rcopy (.recv 0)]).map
      (fun t => (t.output, t.serverHalt, t.rcopyHalt, t.rcopy.pc, t.server.pc)) =
      some ([1, 2], none, none, .recvDataLoop, .checkForRRs) := by
    decide +kernel
  obtain ⟨t, ht, heq⟩ := Option.map_eq_some_iff.mp hrun
  simp only [Prod.mk.injEq] at heq
  obtain ⟨houtput, hserver, hrcopy, hloop, hpoll⟩ := heq
  have hreach : Transfer.Reachable 1 2 [1, 2, 3] t :=
    ⟨[], [], _, (fun d hd => by cases hd), (fun d hd => by cases hd), ht⟩
  obtain ⟨events, x, _, hevents, hcomplete⟩ := Transfer.completes
    ⟨by decide, by decide, by decide, by decide, by decide⟩ hreach hserver hrcopy (.inl hloop)
    (.inl hpoll)
  exact ⟨t, hreach, houtput, events, x.transfer, hevents, hcomplete⟩

end SelRej

import SelRej.ServerTransfer
import SelRej.Transfer

/-!
# The invariant of a transfer

The child's interval, rcopy's reorder buffer and the datagrams on the network
fit together: the child's lower bound is not above the number of packets that
rcopy has written, rcopy has seen no number that the child has not sent, every
RR on the network is at most what rcopy has written, every data packet is a
packet of the file, and an EOF is on the network only when everything has been
sent and acknowledged. `joint_step` shows that every event keeps this.
-/
namespace SelRej
open ReorderBuffer Chunks

/-- With `f` packets written; `done` is whether rcopy has received the EOF. -/
inductive RcopySends (f : ℕ) (done : Prop) : List UInt8 → Prop where
  | rr (mySeq k : UInt32) (hk : k.toNat ≤ f) :
      RcopySends f done (createPdu mySeq RR_FLAG (htonl k))
  | srej (mySeq k : UInt32) : RcopySends f done (createPdu mySeq SREJ_FLAG (htonl k))
  | ackEof (mySeq : UInt32) (h : done) : RcopySends f done (createPdu mySeq ACKEOF_FLAG [])

theorem RcopySends.mono {f f' : ℕ} {done done' : Prop} {d : List UInt8}
    (h : RcopySends f done d) (hf : f ≤ f') (hdone : done → done') : RcopySends f' done' d := by
  cases h with
  | rr mySeq k hk => exact .rr mySeq k (Nat.le_trans hk hf)
  | srej mySeq k => exact .srej mySeq k
  | ackEof mySeq h => exact .ackEof mySeq (hdone h)

theorem datagrams_wire {f : ℕ} {done : Prop} {mySeq : UInt32} {out : List (Output PduS)}
    (h : ∀ k, Output.ack k ∈ out → k ≤ f) :
    ∀ d ∈ datagrams (wire mySeq out), RcopySends f done d := by
  induction out generalizing mySeq with
  | nil =>
      intro d hd
      cases hd
  | cons o out ih =>
      have hrest : ∀ k, Output.ack k ∈ out → k ≤ f := fun k hk => h k (List.mem_cons_of_mem o hk)
      cases o with
      | deliver k packet => exact ih hrest
      | ack k =>
          intro d hd
          rcases List.mem_cons.mp hd with rfl | hd
          · refine .rr mySeq _ ?_
            rw [UInt32.toNat_ofNat']
            exact Nat.le_trans (Nat.mod_le _ _) (h k List.mem_cons_self)
          · exact ih hrest d hd
      | nack k =>
          intro d hd
          rcases List.mem_cons.mp hd with rfl | hd
          · exact .srej mySeq _
          · exact ih hrest d hd

theorem mem_datagrams_of_ack (mySeq : UInt32) {out : List (Output PduS)} {k : ℕ}
    (h : Output.ack k ∈ out) :
    ∃ seq, createPdu seq RR_FLAG (htonl (UInt32.ofNat k)) ∈ datagrams (wire mySeq out) := by
  induction out generalizing mySeq with
  | nil => cases h
  | cons o out ih =>
      rcases List.mem_cons.mp h with rfl | hrest
      · exact ⟨mySeq, List.mem_cons_self⟩
      · cases o with
        | deliver j packet => exact ih mySeq hrest
        | ack j =>
            obtain ⟨seq, hseq⟩ := ih (mySeq + 1) hrest
            exact ⟨seq, List.mem_cons_of_mem _ hseq⟩
        | nack j =>
            obtain ⟨seq, hseq⟩ := ih (mySeq + 1) hrest
            exact ⟨seq, List.mem_cons_of_mem _ hseq⟩

section
variable {w : ℕ} {bufSize : UInt16} {file : List UInt8} {lo n f : ℕ} {done : Prop}
  {d : List UInt8} {pc : ServerPc}

theorem ServerSends.mono {lo' n' : ℕ} (h : ServerSends bufSize file lo n d) (hlo : lo ≤ lo')
    (hn : n ≤ n') (hle : n' ≤ packets file bufSize) (hlo' : lo' ≤ n') :
    ServerSends bufSize file lo' n' d := by
  cases h with
  | data hk => exact .data (Nat.lt_of_lt_of_le hk hn)
  | eof mySeq heq hall => exact .eof mySeq (by omega) (by omega)

theorem Params.recvLen_bounds (hp : Params w bufSize file) (pc : ServerPc) :
    7 ≤ Server.recvLen bufSize pc ∧ Server.recvLen bufSize pc ≤ 65535 := by
  have hle := hp.buf_le
  cases pc <;> simp only [Server.recvLen, HEADER_LEN] <;> omega

theorem recvLen_of_polls (hpc : pc = .checkForRRs ∨ ∃ count caller, pc = .openWindow count caller) :
    11 ≤ Server.recvLen bufSize pc := by
  rcases hpc with rfl | ⟨count, caller, rfl⟩
  · simp only [Server.recvLen, HEADER_LEN]
    omega
  · exact Nat.le_refl 11

theorem understood_number (hp : Params w bufSize file) {mySeq k : UInt32} {flag : UInt8}
    (hk : flag = RR_FLAG → k.toNat ≤ f) :
    Understood bufSize f pc (.datagram (createPdu mySeq flag (htonl k))) := by
  obtain ⟨hge, hle⟩ := hp.recvLen_bounds pc
  obtain ⟨received, hinterp, hflag⟩ := interpPDU_take mySeq flag (htonl k) hge hle
  refine ⟨received, hinterp, fun packet hpacket hpolls _ => ?_⟩
  have hwhole := interpPDU_take_of_le mySeq flag (show (htonl k).length ≤ 65528 by simp)
    (show 7 + (htonl k).length ≤ Server.recvLen bufSize pc by
      have hlen : 11 ≤ Server.recvLen bufSize pc := recvLen_of_polls hpolls
      rw [htonl_length]
      omega)
  rw [hinterp] at hwhole
  cases hwhole
  cases hpacket
  exact ⟨k, readSeq_htonl k, hk⟩

theorem understood_other (hp : Params w bufSize file) {mySeq : UInt32} {flag : UInt8}
    {payload : List UInt8} (hrr : flag ≠ RR_FLAG) (hsrej : flag ≠ SREJ_FLAG) :
    Understood bufSize f pc (.datagram (createPdu mySeq flag payload)) := by
  obtain ⟨hge, hle⟩ := hp.recvLen_bounds pc
  obtain ⟨received, hinterp, hflag⟩ := interpPDU_take mySeq flag payload hge hle
  refine ⟨received, hinterp, fun packet hpacket _ hnumber => ?_⟩
  rw [hflag packet hpacket] at hnumber
  rcases hnumber with h | h
  · exact absurd h hrr
  · exact absurd h hsrej

theorem understood_of_sends (hp : Params w bufSize file)
    (h : RcopySends f done d ∨ Transfer.Setup d) : Understood bufSize f pc (.datagram d) := by
  rcases h with h | ⟨mySeq, flag, payload, rfl, hflag⟩
  · cases h with
    | rr mySeq k hk => exact understood_number hp (fun _ => hk)
    | srej mySeq k => exact understood_number hp (fun hf => absurd hf (by decide))
    | ackEof mySeq h => exact understood_other hp (by decide) (by decide)
  · rcases hflag with rfl | rfl | rfl
    · exact understood_other hp (by decide) (by decide)
    · exact understood_other hp (by decide) (by decide)
    · exact understood_other hp (by decide) (by decide)

theorem Params.rcopyRecvLen (hp : Params w bufSize file) (pc : RcopyPc) :
    bufSize.toNat + 7 ≤ Rcopy.recvLen bufSize pc ∧ Rcopy.recvLen bufSize pc ≤ 65535 := by
  have hle := hp.buf_le
  cases pc <;> simp only [Rcopy.recvLen, MAXBUF, HEADER_LEN] <;> omega

/-- rcopy reads a packet of the file whole, wherever it waits. -/
theorem Params.rcopy_reads_dataBytes (hp : Params w bufSize file) (pc : RcopyPc) (k : ℕ) :
    interpPDU ((dataBytes file bufSize k).take (Rcopy.recvLen bufSize pc)) =
      .ok (some (dataPacket file bufSize k)) := by
  have hlen := dataBytes_length_le file bufSize k
  rw [List.take_of_length_le (Nat.le_trans hlen (hp.rcopyRecvLen pc).1), hp.interpPDU_dataBytes]

/-- What rcopy reads of a datagram that the child or the setup phase sent. -/
inductive RcopyReads (bufSize : UInt16) (file : List UInt8) (lo n : ℕ) : Option PduS → Prop where
  | rejected : RcopyReads bufSize file lo n none
  | data {k : ℕ} (hk : k < n) : RcopyReads bufSize file lo n (some (dataPacket file bufSize k))
  | eof {packet : PduS} (hflag : packet.flag = EOF_FLAG) (hlo : lo = n)
      (hn : n = packets file bufSize) : RcopyReads bufSize file lo n (some packet)
  | other {packet : PduS} (hdata : packet.flag ≠ DATA_FLAG) (heof : packet.flag ≠ EOF_FLAG) :
      RcopyReads bufSize file lo n (some packet)

theorem rcopyReads_of_sends (hp : Params w bufSize file) (pc : RcopyPc)
    (h : ServerSends bufSize file lo n d ∨ Transfer.Setup d) :
    ∃ received, interpPDU (d.take (Rcopy.recvLen bufSize pc)) = .ok received ∧
      RcopyReads bufSize file lo n received := by
  obtain ⟨hge, hle⟩ := hp.rcopyRecvLen pc
  rcases h with h | ⟨mySeq, flag, payload, rfl, hflag⟩
  · cases h with
    | data hk => exact ⟨_, hp.rcopy_reads_dataBytes pc _, .data hk⟩
    | eof mySeq hlo hn =>
        exact ⟨_, interpPDU_take_of_le mySeq EOF_FLAG (Nat.zero_le _)
          (show 7 + 0 ≤ Rcopy.recvLen bufSize pc by omega), .eof rfl hlo hn⟩
  · obtain ⟨received, hinterp, hread⟩ := interpPDU_take mySeq flag payload
      (show 7 ≤ Rcopy.recvLen bufSize pc by omega) hle
    refine ⟨received, hinterp, ?_⟩
    cases received with
    | none => exact .rejected
    | some packet =>
        have hpacket := hread packet rfl
        rcases hflag with rfl | rfl | rfl <;>
          exact .other (by rw [hpacket]; decide) (by rw [hpacket]; decide)

end

structure Joint (w : ℕ) (bufSize : UInt16) (file : List UInt8) (t : Transfer) (lo n : ℕ)
    (b : ReorderBuffer PduS) : Prop where
  serves : Serves w bufSize file t.server lo n
  simulates : Simulates t.rcopy w b
  lo_le : lo ≤ b.next
  seen_le : b.seen ≤ n
  held : ∀ k packet, b.held k = some packet → packet = dataPacket file bufSize k
  written : t.written = sentPackets file bufSize b.next
  finished : t.rcopy.pc = .finished → b.next = packets file bufSize
  toServer : ∀ d ∈ t.toServer,
    RcopySends b.next (t.rcopy.pc = .finished) d ∨ Transfer.Setup d
  toRcopy : ∀ d ∈ t.toRcopy, ServerSends bufSize file lo n d ∨ Transfer.Setup d
  sent : ∀ k, k < n → dataBytes file bufSize k ∈ t.toRcopy

section
variable {w : ℕ} {bufSize : UInt16} {file : List UInt8} {t t' : Transfer} {lo n : ℕ}
  {b : ReorderBuffer PduS} {poll : Poll}

theorem joint_start (hp : Params w bufSize file) {toServer toRcopy : List (List UInt8)}
    (hserver : ∀ d ∈ toServer, Transfer.Setup d) (hrcopy : ∀ d ∈ toRcopy, Transfer.Setup d) :
    Joint w bufSize file (Transfer.start w bufSize file toServer toRcopy) 0 1
      ReorderBuffer.empty := by
  have hpos := hp.window_pos
  have hle := hp.window_le
  obtain ⟨s', hinit, hserves, _⟩ := serves_init hp
  unfold Transfer.start
  rw [hinit]
  refine ⟨hserves, simulates_init (by omega) (by omega), Nat.le_refl 0, Nat.zero_le 1, ?_, rfl, ?_,
    fun d hd => .inr (hserver d hd), ?_, ?_⟩
  · intro k packet hk
    cases hk
  · intro hf
    cases hf
  · intro d hd
    rcases List.mem_append.mp hd with hd | hd
    · exact .inr (hrcopy d hd)
    · exact .inl (sends_singleton (.data Nat.zero_lt_one) d hd)
  · intro k hk
    obtain rfl : k = 0 := by omega
    exact List.mem_append_right _ (List.mem_singleton_self _)

theorem Joint.understood (h : Joint w bufSize file t lo n b) (hp : Params w bufSize file)
    (harr : Transfer.Arrives t.toServer (Server.recvLen bufSize t.server.pc) poll) :
    Understood bufSize b.next t.server.pc poll := by
  cases harr with
  | timeout => trivial
  | recv hd => exact understood_of_sends hp (h.toServer _ hd)
  | corrupt hd => exact ⟨none, hd, fun packet hpacket => by cases hpacket⟩

/-- The child waits again, with an interval that has moved up. -/
theorem Joint.server_waits (h : Joint w bufSize file t lo n b) {s' : Server}
    {out : List (List UInt8)} {heard : List PduS} {lo' n' : ℕ}
    (hserves : Serves w bufSize file s' lo' n') (hlo : lo ≤ lo') (hn : n ≤ n')
    (hrr : lo' ≤ b.next) (hout : ∀ d ∈ out, ServerSends bufSize file lo' n' d)
    (hsent : ∀ k, n ≤ k → k < n' → dataBytes file bufSize k ∈ out) :
    Joint w bufSize file { t with server := s', toRcopy := t.toRcopy ++ out, heard := heard }
      lo' n' b := by
  have hseen := h.seen_le
  refine ⟨hserves, h.simulates, hrr, by omega, h.held, h.written, h.finished, h.toServer, ?_, ?_⟩
  · intro d hd
    rcases List.mem_append.mp hd with hd | hd
    · exact (h.toRcopy d hd).imp_left
        fun hs => hs.mono hlo hn hserves.holding.le hserves.holding.lo_le
    · exact .inl (hout d hd)
  · intro k hk
    rcases Nat.lt_or_ge k n with hlt | hge
    · exact List.mem_append_left _ (h.sent k hlt)
    · exact List.mem_append_right _ (hsent k hge hk)

theorem joint_serverStep (h : Joint w bufSize file t lo n b) (hp : Params w bufSize file)
    (harr : Transfer.Arrives t.toServer (Server.recvLen bufSize t.server.pc) poll) :
    ∃ lo' n', Joint w bufSize file (t.serverStep bufSize poll) lo' n' b := by
  have hgoes := h.serves.step_goes hp (h.understood hp harr)
  have hlole := h.lo_le
  unfold Transfer.serverStep
  generalize t.server.step bufSize poll = p at hgoes
  cases hgoes with
  | stops hout =>
      refine ⟨lo, n, h.serves, h.simulates, hlole, h.seen_le, h.held, h.written, h.finished,
        h.toServer, ?_, ?_⟩
      · intro d hd
        rcases List.mem_append.mp hd with hd | hd
        · exact h.toRcopy d hd
        · exact .inl (hout d hd)
      · exact fun k hk => List.mem_append_left _ (h.sent k hk)
  | @waits out s' lo' n' hserves hlo hn hrr hout hsent =>
      exact ⟨lo', n', h.server_waits hserves hlo hn (by omega) hout hsent⟩

/-- Deliveries in turn continue the packets of the file. -/
theorem sentPackets_append {f : ℕ} {out : List (Output PduS)} (hturn : InTurn f out)
    (hitems : ∀ p ∈ deliveries out, p.2 = dataPacket file bufSize p.1) :
    sentPackets file bufSize f ++ (deliveries out).map Prod.snd =
      sentPackets file bufSize (f + (deliveries out).length) := by
  have hmap : (deliveries out).map Prod.snd =
      (List.range' f (deliveries out).length).map (dataPacket file bufSize) := by
    rw [← hturn.numbers, List.map_map]
    exact List.map_congr_left hitems
  rw [hmap, sentPackets, sentPackets, ← List.map_append, List.range_eq_range',
    List.range_eq_range']
  congr 1
  have happend := List.range'_append_1 (s := 0) (m := f) (n := (deliveries out).length)
  rwa [Nat.zero_add] at happend

/-- Packet `k` of the file arrives at rcopy. -/
theorem Joint.data_step (h : Joint w bufSize file t lo n b) (hp : Params w bufSize file)
    {k : ℕ} (hk : k < n) (hpc : t.rcopy.pc ≠ .finished) : ∃ r',
    t.rcopy.receive (dataPacket file bufSize k) =
        ⟨wire t.rcopy.mySeq (b.arrive k (dataPacket file bufSize k)).1, .ok r'⟩ ∧
      r'.pc ≠ .finished ∧ Joint w bufSize file { t with
        rcopy := r'
        toServer := t.toServer ++
          datagrams (wire t.rcopy.mySeq (b.arrive k (dataPacket file bufSize k)).1)
        written := t.written ++
          SelRej.written (wire t.rcopy.mySeq (b.arrive k (dataPacket file bufSize k)).1) }
        lo n (b.arrive k (dataPacket file bufSize k)).2 := by
  have hfew := hp.few
  have hle := h.serves.holding.le
  have hadd := h.serves.holding.le_add
  have hlole := h.lo_le
  have hnum := hp.seqNum_dataPacket (show k < packets file bufSize by omega)
  have hfits : Fits w b.next (dataPacket file bufSize k) :=
    ⟨rfl, by omega, by omega, .inl hp.window_le⟩
  obtain ⟨r', hreceive, hsim, _, hpc'⟩ := h.simulates.receive_eq hpc hfits
  rw [hnum] at hreceive hsim
  obtain ⟨hturn, hnext⟩ := arrive_inTurn b k (dataPacket file bufSize k)
  obtain ⟨hitems, hheld⟩ := arrive_items (P := fun k p => p = dataPacket file bufSize k) h.held
    (k := k) (a := dataPacket file bufSize k) rfl
  refine ⟨r', hreceive, hpc', h.serves, hsim, by omega, arrive_seen_le h.seen_le hk, hheld, ?_, ?_,
    ?_, h.toRcopy, h.sent⟩
  · simp only
    rw [written_wire, h.written, sentPackets_append hturn hitems, hnext]
  · exact fun hf => absurd hf hpc'
  · intro d hd
    rcases List.mem_append.mp hd with hd | hd
    · exact (h.toServer d hd).imp_left fun hs =>
        hs.mono (by omega) (fun hf => absurd hf hpc)
    · exact .inl (datagrams_wire (fun j hj => arrive_ack_le hj) d hd)

theorem Joint.reads (h : Joint w bufSize file t lo n b) (hp : Params w bufSize file)
    {bytes : List UInt8}
    (harr : Transfer.Arrives t.toRcopy (Rcopy.recvLen bufSize t.rcopy.pc) (.datagram bytes)) :
    ∃ received, interpPDU (bytes.take (Rcopy.recvLen bufSize t.rcopy.pc)) = .ok received ∧
      RcopyReads bufSize file lo n received := by
  cases harr with
  | recv hd => exact rcopyReads_of_sends hp _ (h.toRcopy _ hd)
  | corrupt hd => exact ⟨none, hd, .rejected⟩

theorem Joint.control_step (h : Joint w bufSize file t lo n b) {packet : PduS}
    (hflag : packet.flag ≠ DATA_FLAG)
    (heof : packet.flag = EOF_FLAG → lo = n ∧ n = packets file bufSize) : ∃ out r',
    t.rcopy.receive packet = ⟨out, .ok r'⟩ ∧
      Joint w bufSize file { t with
        rcopy := r'
        toServer := t.toServer ++ datagrams out
        written := t.written ++ SelRej.written out } lo n b := by
  have hlole := h.lo_le
  have hseen := h.seen_le
  have hnext := h.simulates.wellFormed.next_le
  obtain ⟨out, r', hreceive, hsim, hout⟩ := h.simulates.receive_control hflag
  refine ⟨out, r', hreceive, ?_⟩
  rcases hout with ⟨rfl, hpc⟩ | ⟨hf, _, hpc, rfl⟩
  · refine ⟨h.serves, hsim, hlole, hseen, h.held, ?_, fun hf => h.finished (hpc.mp hf), ?_,
      h.toRcopy, h.sent⟩
    · exact (List.append_nil _).trans h.written
    · intro d hd
      rw [show datagrams [] = [] from rfl, List.append_nil] at hd
      exact (h.toServer d hd).imp_left fun hs => hs.mono (Nat.le_refl _) hpc.mpr
  · obtain ⟨hlo, hn⟩ := heof hf
    refine ⟨h.serves, hsim, hlole, hseen, h.held, ?_, fun _ => by omega, ?_, h.toRcopy, h.sent⟩
    · exact (List.append_nil _).trans h.written
    · intro d hd
      rcases List.mem_append.mp hd with hd | hd
      · exact (h.toServer d hd).imp_left fun hs => hs.mono (Nat.le_refl _) (fun _ => hpc)
      · rw [show datagrams [Action.sendto (createPdu t.rcopy.mySeq ACKEOF_FLAG [])] =
          [createPdu t.rcopy.mySeq ACKEOF_FLAG []] from rfl, List.mem_singleton] at hd
        subst hd
        exact .inl (.ackEof _ hpc)

theorem Joint.still (h : Joint w bufSize file t lo n b) {halt : Option Halt} :
    Joint w bufSize file { t with
      rcopyHalt := halt
      toServer := t.toServer ++ datagrams []
      written := t.written ++ SelRej.written [] } lo n b := by
  refine ⟨h.serves, h.simulates, h.lo_le, h.seen_le, h.held, ?_, h.finished, ?_, h.toRcopy, h.sent⟩
  · exact (List.append_nil _).trans h.written
  · intro d hd
    exact h.toServer d (by rwa [show datagrams [] = [] from rfl, List.append_nil] at hd)

theorem joint_rcopyStep (h : Joint w bufSize file t lo n b) (hp : Params w bufSize file)
    (harr : Transfer.Arrives t.toRcopy (Rcopy.recvLen bufSize t.rcopy.pc) poll) :
    ∃ b', Joint w bufSize file (t.rcopyStep bufSize poll) lo n b' := by
  unfold Transfer.rcopyStep
  cases poll with
  | timeout =>
      rcases Rcopy.step_timeout bufSize t.rcopy with heq | heq
      · rw [heq]
        exact ⟨b, h.still⟩
      · rw [heq]
        exact ⟨b, h.still⟩
  | datagram bytes =>
      obtain ⟨received, hinterp, hreads⟩ := h.reads hp harr
      cases hreads with
      | rejected =>
          rw [Rcopy.step_rejected hinterp]
          exact ⟨b, h.still⟩
      | @data k hk =>
          rw [Rcopy.step_accepted hinterp]
          by_cases hpc : t.rcopy.pc = .finished
          · rw [Rcopy.receive_finished hpc]
            exact ⟨b, h.still⟩
          · obtain ⟨r', hreceive, _, hjoint⟩ := h.data_step hp hk hpc
            rw [hreceive]
            exact ⟨_, hjoint⟩
      | eof hflag hlo hn =>
          obtain ⟨out, r', hreceive, hjoint⟩ :=
            h.control_step (by rw [hflag]; decide) (fun _ => ⟨hlo, hn⟩)
          rw [Rcopy.step_accepted hinterp, hreceive]
          exact ⟨b, hjoint⟩
      | other hdata heof =>
          obtain ⟨out, r', hreceive, hjoint⟩ :=
            h.control_step hdata (fun hf => absurd hf heof)
          rw [Rcopy.step_accepted hinterp, hreceive]
          exact ⟨b, hjoint⟩

theorem joint_step {e : TransferEvent} (hp : Params w bufSize file)
    (h : ∃ lo n b, Joint w bufSize file t lo n b) (hstep : t.step bufSize e = some t') :
    ∃ lo n b, Joint w bufSize file t' lo n b := by
  obtain ⟨lo, n, b, h⟩ := h
  cases e with
  | server a =>
      obtain ⟨_, poll, rfl, hpoll⟩ := Transfer.step_server hstep
      obtain ⟨lo', n', hjoint⟩ := joint_serverStep h hp (Transfer.arrives_of_poll hpoll)
      exact ⟨lo', n', b, hjoint⟩
  | rcopy a =>
      obtain ⟨_, poll, rfl, hpoll⟩ := Transfer.step_rcopy hstep
      obtain ⟨b', hjoint⟩ := joint_rcopyStep h hp (Transfer.arrives_of_poll hpoll)
      exact ⟨lo, n, b', hjoint⟩

/-- Every reachable state satisfies the invariant. -/
theorem joint_reachable (hp : Params w bufSize file) (h : Transfer.Reachable w bufSize file t) :
    ∃ lo n b, Joint w bufSize file t lo n b := by
  obtain ⟨toServer, toRcopy, events, hserver, hrcopy, hrun⟩ := h
  exact PartialRun.run_induct (P := fun t => ∃ lo n b, Joint w bufSize file t lo n b)
    (fun _ _ _ hs hstep => joint_step hp hs hstep)
    ⟨0, 1, _, joint_start hp hserver hrcopy⟩ hrun

end
end SelRej

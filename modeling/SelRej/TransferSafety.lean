import SelRej.ServerCalls
import SelRej.TransferInvariant

/-!
# Safety of a transfer

In every state that a transfer can reach, rcopy has written the first packets
of the file, each of them once and in order, and when it has received the EOF
it has written the whole file. What rcopy has not written yet is in the child's
window as soon as it has been sent, and sending it again repeats the datagram
that was sent first.
-/
namespace SelRej.Transfer
open Chunks PartialRun

section
variable {w : ℕ} {bufSize : UInt16} {file : List UInt8} {t : Transfer} {lo n k : ℕ}
  {b : ReorderBuffer PduS}

theorem numbers_sentPackets (hp : Params w bufSize file) {f : ℕ}
    (hf : f ≤ packets file bufSize) :
    (sentPackets file bufSize f).map (fun packet => packet.seqNum.toNat) = List.range f := by
  rw [sentPackets, List.map_map]
  refine (List.map_congr_left fun k hk => ?_).trans (List.map_id _)
  exact hp.seqNum_dataPacket (Nat.lt_of_lt_of_le (List.mem_range.mp hk) hf)

theorem payloads_sentPackets (f : ℕ) : (sentPackets file bufSize f).map PduS.payload =
    (List.range f).map (chunk file bufSize.toNat) := by
  rw [sentPackets, List.map_map]
  rfl

theorem flatMap_sentPackets (f : ℕ) :
    (sentPackets file bufSize f).flatMap PduS.payload = file.take (f * bufSize.toNat) := by
  rw [← flatMap_chunk, sentPackets, List.flatMap_map]
  rfl

theorem flatMap_packets (hp : Params w bufSize file) :
    (sentPackets file bufSize (packets file bufSize)).flatMap PduS.payload = file := by
  rw [flatMap_sentPackets]
  exact take_count file bufSize.toNat hp.buf_pos

theorem output_eq (h : Joint w bufSize file t lo n b) :
    t.output = file.take (b.next * bufSize.toNat) := by
  rw [output, h.written, flatMap_sentPackets]

theorem output_of_finished (h : Joint w bufSize file t lo n b) (hp : Params w bufSize file)
    (hpc : t.rcopy.pc = .finished) : t.output = file := by
  rw [output, h.written, h.finished hpc, flatMap_packets hp]

/-- rcopy's output is a prefix of the file made of its first packets, and the
whole file when rcopy has received the EOF. -/
theorem writes_prefix (hp : Params w bufSize file) (h : Reachable w bufSize file t) :
    ∃ f, f ≤ packets file bufSize ∧
      t.written.map (fun packet => packet.seqNum.toNat) = List.range f ∧
      t.written.map PduS.payload = (List.range f).map (chunk file bufSize.toNat) ∧
      t.output = file.take (f * bufSize.toNat) ∧ t.output <+: file ∧
      (t.rcopy.pc = .finished → f = packets file bufSize ∧ t.output = file) := by
  obtain ⟨lo, n, b, hjoint⟩ := joint_reachable hp h
  have hnext := hjoint.simulates.wellFormed.next_le
  have hseen := hjoint.seen_le
  have hle := hjoint.serves.holding.le
  have hout := output_eq hjoint
  refine ⟨b.next, by omega, ?_, ?_, hout, ?_, ?_⟩
  · rw [hjoint.written]
    exact numbers_sentPackets hp (by omega)
  · rw [hjoint.written]
    exact payloads_sentPackets b.next
  · rw [hout]
    exact List.take_prefix _ _
  · intro hfinished
    exact ⟨hjoint.finished hfinished, output_of_finished hjoint hp hfinished⟩

/-- The two packets of a file arrive in the wrong order, and then the EOF. -/
theorem writes_prefix_swapped : ∃ t, Reachable 2 2 [1, 2, 3] t ∧ t.rcopy.pc = .finished ∧
    t.output = [1, 2, 3] := by
  have hrun : (run (step 2) (start 2 2 [1, 2, 3] [] []) [.server .timeout, .rcopy (.recv 1),
      .rcopy (.recv 0), .server (.recv 2), .server .timeout, .rcopy (.recv 2)]).map
      (fun t => t.rcopy.pc) = some .finished := by
    decide +kernel
  obtain ⟨t, ht, hpc⟩ := Option.map_eq_some_iff.mp hrun
  have hreach : Reachable 2 2 [1, 2, 3] t :=
    ⟨[], [], _, (fun d hd => by cases hd), (fun d hd => by cases hd), ht⟩
  obtain ⟨f, _, _, _, _, _, hwhole⟩ := writes_prefix
    ⟨by decide, by decide, by decide, by decide, by decide⟩ hreach
  exact ⟨t, hreach, hpc, (hwhole hpc).2⟩

/-- Only packet `k` of the file is sent as a data PDU with number `k`. -/
theorem sent_data (hp : Params w bufSize file) (h : Joint w bufSize file t lo n b)
    (hk : k < packets file bufSize) {d : List UInt8} {packet : PduS} (hd : d ∈ t.toRcopy)
    (hinterp : interpPDU d = .ok (some packet)) (hflag : packet.flag = DATA_FLAG)
    (hseq : packet.seqNum.toNat = k) : d = dataBytes file bufSize k ∧ k < n := by
  have hle := h.serves.holding.le
  rcases h.toRcopy d hd with hsent | ⟨mySeq, flag, payload, rfl, hsetup⟩
  · cases hsent with
    | @data j hj =>
        rw [hp.interpPDU_dataBytes] at hinterp
        cases hinterp
        have hnum := hp.seqNum_dataPacket (show j < packets file bufSize by omega)
        obtain rfl : j = k := hnum.symm.trans hseq
        exact ⟨rfl, hj⟩
    | eof mySeq hlo hn =>
        rw [interpPDU_createPdu mySeq EOF_FLAG (Nat.zero_le _)] at hinterp
        cases hinterp
        cases hflag
  · have hread := flag_of_interpPDU hinterp
    rw [hflag] at hread
    subst hread
    rcases hsetup with hsetup | hsetup | hsetup <;> cases hsetup

/-- Number `k` is in the child's window, `srej` finds it there, and what is sent
for it again is the datagram that was first sent for it. -/
structure Retransmits (w lo : ℕ) (t : Transfer) (k : ℕ) (packet : PduS) : Prop where
  slot : t.server.win.queue ((k % w : ℕ) : ℤ) = some packet
  seqNum : packet.seqNum.toNat = k
  srej_eq : srej t.server.win (UInt32.ofNat k) = .ok (some packet)
  handleSrej_eq : ∀ request : PduS, readSeq request.payload = .ok (UInt32.ofNat k) →
    t.server.handleSrej request = ⟨[recreatePDUS packet], .ok t.server⟩
  resendLowest_eq : k = lo → t.server.resendLowest = ⟨[recreatePDUS packet], .ok t.server⟩
  sent : recreatePDUS packet ∈ t.toRcopy
  first : ∀ d ∈ t.toRcopy, ∀ read, interpPDU d = .ok (some read) → read.flag = DATA_FLAG →
    read.seqNum.toNat = k → d = recreatePDUS packet

theorem retransmits (hp : Params w bufSize file) (h : Joint w bufSize file t lo n b)
    (hlo : lo ≤ k) (hk : k < n) : Retransmits w lo t k (dataPacket file bufSize k) where
  slot := by
    have hadd := h.serves.holding.le_add
    rw [h.serves.holding.interval.queue_eq hlo (by omega),
      List.getElem?_eq_getElem (by rwa [sentPackets_length]), sentPackets_getElem]
  seqNum := hp.seqNum_dataPacket (Nat.lt_of_lt_of_le hk h.serves.holding.le)
  srej_eq := h.serves.holding.srej_of_mem hp hlo hk
  handleSrej_eq := by
    intro request hread
    unfold Server.handleSrej
    rw [hread, Emit.liftM_eq, Emit.bind_silent, h.serves.holding.srej_of_mem hp hlo hk,
      Emit.liftM_eq, Emit.bind_silent]
    dsimp only
    rw [recreatePDUS_dataPacket, hp.sendable.shortPdu_dataBytes]
    rfl
  resendLowest_eq := by
    rintro rfl
    exact resendLowest_eq h.serves.holding hk
  sent := h.sent k hk
  first := by
    intro d hd read hread hflag hseq
    exact (sent_data hp h (Nat.lt_of_lt_of_le hk h.serves.holding.le) hd hread hflag hseq).1

/-- The child's lower bound is at most the number of packets that rcopy has
written, and every packet from there on that has been sent can be sent again. -/
theorem lacking_retransmits (hp : Params w bufSize file) (h : Reachable w bufSize file t) :
    ∃ lo n, ServerRun.IntervalState t.server.win w lo (sentPackets file bufSize n) ∧
      lo ≤ t.written.length ∧ t.written.length ≤ n ∧
      (∀ k, k < packets file bufSize → (k < n ↔ ∃ d ∈ t.toRcopy, ∃ packet,
        interpPDU d = .ok (some packet) ∧ packet.flag = DATA_FLAG ∧ packet.seqNum.toNat = k)) ∧
      ∀ k, t.written.length ≤ k → k < n → Retransmits w lo t k (dataPacket file bufSize k) := by
  obtain ⟨lo, n, b, hjoint⟩ := joint_reachable hp h
  have hnext := hjoint.simulates.wellFormed.next_le
  have hseen := hjoint.seen_le
  have hlo := hjoint.lo_le
  have hlen : t.written.length = b.next := by
    rw [hjoint.written, sentPackets_length]
  rw [hlen]
  refine ⟨lo, n, ServerRun.intervalState_of_interval hjoint.serves.holding.interval
    hjoint.serves.holding.upper, hlo, by omega, ?_, ?_⟩
  · intro k hk
    constructor
    · intro hlt
      exact ⟨_, hjoint.sent k hlt, _, hp.interpPDU_dataBytes k, rfl, hp.seqNum_dataPacket hk⟩
    · rintro ⟨d, hd, packet, hread, hflag, hseq⟩
      exact (sent_data hp hjoint hk hd hread hflag hseq).2
  · intro k hk hlt
    exact retransmits hp hjoint (by omega) hlt

/-- Packet 1 arrives before packet 0, which can still be sent again. -/
theorem lacking_retransmits_first : ∃ t, Reachable 2 1 [1, 2] t ∧ t.written = [] ∧
    Retransmits 2 0 t 0 (dataPacket [1, 2] 1 0) := by
  have hrun : (run (step 1) (start 2 1 [1, 2] [] []) [.server .timeout, .rcopy (.recv 1)]).map
      (fun t => (t.written, t.toRcopy)) = some ([], [dataBytes [1, 2] 1 0, dataBytes [1, 2] 1 1]) := by
    decide +kernel
  obtain ⟨t, ht, heq⟩ := Option.map_eq_some_iff.mp hrun
  obtain ⟨hwritten, hsent⟩ := Prod.mk.inj heq
  have hp : Params 2 1 [1, 2] := ⟨by decide, by decide, by decide, by decide, by decide⟩
  have hreach : Reachable 2 1 [1, 2] t :=
    ⟨[], [], _, (fun d hd => by cases hd), (fun d hd => by cases hd), ht⟩
  obtain ⟨lo, n, _, hlo, _, hdata, hlack⟩ := lacking_retransmits hp hreach
  rw [hwritten] at hlo hlack
  obtain rfl : lo = 0 := Nat.le_zero.mp hlo
  have hn : 0 < n := (hdata 0 (by decide)).mpr
    ⟨_, by rw [hsent]; exact List.mem_cons_self, _, hp.interpPDU_dataBytes 0, rfl, rfl⟩
  exact ⟨t, hreach, hwritten, hlack 0 (Nat.le_refl 0) hn⟩

end
end SelRej.Transfer

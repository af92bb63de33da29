import SelRej.Retransmission

/-!
# Rejections

rcopy rejects a packet once, when a later one overtakes it. It rejects it again only
when a packet that it has written arrives once more while this one is the first that
is missing: not for each packet that arrives in the meantime, and never on its own.
-/
namespace SelRej
open ReorderBuffer Chunks PartialRun

def srejFor (k : ℕ) (pduBuf : List UInt8) : Bool :=
  match interpPDU pduBuf with
  | .ok (some packet) => packet.flag == SREJ_FLAG && packet.number == k
  | _ => false

/-- The loop of `handleSrej`. -/
def RcopyPc.rejecting : RcopyPc → Bool
  | .handleSrej _ => true
  | .start | .recvDataLoop | .finished => false

namespace Transfer

def oldRead (f : ℕ) : Except Halt (Option PduS) → Bool
  | .ok (some packet) => packet.flag == DATA_FLAG && decide (packet.seqNum.toNat < f)
  | _ => false

def oldData (bufSize : UInt16) (pc : RcopyPc) (f : ℕ) : Poll → Bool
  | .timeout => false
  | .datagram bytes => oldRead f (interpPDU (bytes.take (Rcopy.recvLen bufSize pc)))

/-- Whether packet `k` is to be rejected again in a step: it is the first one missing,
and an old one arrives. -/
def rejectsAgain (bufSize : UInt16) (k : ℕ) (t : Transfer) : TransferEvent → ℕ
  | .server _ => 0
  | .rcopy a =>
      match a.poll t.toRcopy (Rcopy.recvLen bufSize t.rcopy.pc) with
      | some poll =>
          if oldData bufSize t.rcopy.pc t.written.length poll ∧ t.rcopy.pc.rejecting ∧
            t.written.length = k then 1 else 0
      | none => 0

end Transfer

section
variable {w : ℕ} {bufSize : UInt16} {file : List UInt8} {t : Transfer} {lo n k m : ℕ}
  {b : ReorderBuffer PduS} {poll : Poll}

theorem srejFor_other {mySeq : UInt32} {flag : UInt8} {payload : List UInt8}
    (hflag : flag ≠ SREJ_FLAG) : srejFor k (createPdu mySeq flag payload) = false := by
  unfold srejFor
  split
  · rename_i packet hread
    have hpacket := flag_of_interpPDU hread
    rw [beq_false_of_ne (hpacket ▸ hflag), Bool.false_and]
  · rfl

theorem srejFor_of_read {pduBuf : List UInt8} {packet : PduS}
    (h : interpPDU pduBuf = .ok (some packet)) :
    srejFor k pduBuf = (packet.flag == SREJ_FLAG && packet.number == k) := by
  unfold srejFor
  rw [h]

theorem srejFor_srej (mySeq seqNum : UInt32) :
    srejFor k (createPdu mySeq SREJ_FLAG (htonl seqNum)) = (seqNum.toNat == k) := by
  obtain ⟨packet, hread, hflag, hpayload⟩ : ∃ packet,
      interpPDU (createPdu mySeq SREJ_FLAG (htonl seqNum)) = .ok (some packet) ∧
        packet.flag = SREJ_FLAG ∧ packet.payload = htonl seqNum :=
    ⟨_, interpPDU_createPdu mySeq SREJ_FLAG (show (htonl seqNum).length ≤ 65528 by simp), rfl, rfl⟩
  have hnumber : packet.number = seqNum.toNat := number_eq (hpayload ▸ readSeq_htonl seqNum)
  rw [srejFor_of_read hread, hflag, hnumber, beq_self_eq_true, Bool.true_and]

theorem Transfer.oldData_iff {pc : RcopyPc} {f : ℕ} :
    Transfer.oldData bufSize pc f poll = true ↔ ∃ bytes packet, poll = .datagram bytes ∧
      interpPDU (bytes.take (Rcopy.recvLen bufSize pc)) = .ok (some packet) ∧
      packet.flag = DATA_FLAG ∧ packet.seqNum.toNat < f := by
  constructor
  · intro h
    cases poll with
    | timeout => cases h
    | datagram bytes =>
        rw [Transfer.oldData] at h
        unfold Transfer.oldRead at h
        split at h
        · rename_i packet hread
          rw [Bool.and_eq_true, beq_iff_eq, decide_eq_true_eq] at h
          exact ⟨bytes, packet, rfl, hread, h⟩
        · cases h
  · rintro ⟨bytes, packet, rfl, hread, hflag, hlt⟩
    rw [Transfer.oldData, hread, Transfer.oldRead, hflag, beq_self_eq_true, Bool.true_and,
      decide_eq_true_eq]
    exact hlt

theorem countP_wire {mySeq : UInt32} {out : List (Output PduS)}
    (hnack : ∀ j, Output.nack j ∈ out → j < 4294967296) :
    (datagrams (wire mySeq out)).countP (srejFor k) = rejections k out := by
  induction out generalizing mySeq with
  | nil => rfl
  | cons o out ih =>
      have ih : ∀ mySeq, (datagrams (wire mySeq out)).countP (srejFor k) = rejections k out :=
        fun mySeq => ih fun j hj => hnack j (List.mem_cons_of_mem o hj)
      cases o with
      | deliver j packet => exact ih mySeq
      | ack j =>
          have hack : datagrams (wire mySeq (.ack j :: out)) =
              createPdu mySeq RR_FLAG (htonl (UInt32.ofNat j)) ::
                datagrams (wire (mySeq + 1) out) := rfl
          rw [hack, List.countP_cons, srejFor_other (by decide), ih]
          rfl
      | nack j =>
          have hcons : datagrams (wire mySeq (.nack j :: out)) =
              createPdu mySeq SREJ_FLAG (htonl (UInt32.ofNat j)) ::
                datagrams (wire (mySeq + 1) out) := rfl
          rw [hcons, List.countP_cons, srejFor_srej,
            UInt32.toNat_ofNat_of_lt' (hnack j List.mem_cons_self), ih]
          unfold rejections
          rw [List.countP_cons]
          rfl

def RejectedAgain (w : ℕ) (bufSize : UInt16) (file : List UInt8) (k : ℕ) (t : Transfer) (m : ℕ) :
    Prop :=
  ∃ lo n b, Joint w bufSize file t lo n b ∧ Rejected b k (t.toServer.countP (srejFor k)) m

theorem countP_none {out : List (List UInt8)} (h : ∀ d ∈ out, srejFor k d = false) :
    out.countP (srejFor k) = 0 :=
  List.countP_eq_zero.mpr fun d hd => Bool.eq_false_iff.mp (h d hd)

theorem rejectedAgain_start (hp : Params w bufSize file) {toServer toRcopy : List (List UInt8)}
    (hserver : ∀ d ∈ toServer, Transfer.Setup d) (hrcopy : ∀ d ∈ toRcopy, Transfer.Setup d) :
    RejectedAgain w bufSize file k (Transfer.start w bufSize file toServer toRcopy) 0 := by
  refine ⟨0, 1, ReorderBuffer.empty, joint_start hp hserver hrcopy, ?_⟩
  have hsame : (Transfer.start w bufSize file toServer toRcopy).toServer = toServer := by
    unfold Transfer.start
    split <;> rfl
  rw [hsame, countP_none]
  · exact rejected_empty k
  · intro d hd
    obtain ⟨mySeq, flag, payload, rfl, hflag⟩ := hserver d hd
    refine srejFor_other ?_
    rcases hflag with rfl | rfl | rfl <;> decide

theorem Joint.rejecting_iff (h : Joint w bufSize file t lo n b) :
    t.rcopy.pc.rejecting = true ↔ b.next ≠ b.seen := by
  constructor
  · intro hpc hidle
    obtain ⟨_, hcase | hcase | hcase⟩ := h.simulates.idle hidle
    · rw [hcase] at hpc
      cases hpc
    · rw [hcase] at hpc
      cases hpc
    · rw [hcase] at hpc
      cases hpc
  · intro hwaits
    obtain ⟨lastFlag, hpc⟩ := h.simulates.waiting hwaits
    rw [hpc]
    rfl

theorem Joint.written_length (h : Joint w bufSize file t lo n b) : t.written.length = b.next := by
  rw [h.written, sentPackets_length]

theorem rejectedAgain_rcopyStep (hp : Params w bufSize file) (h : RejectedAgain w bufSize file k t m)
    (harr : Transfer.Arrives t.toRcopy (Rcopy.recvLen bufSize t.rcopy.pc) poll) :
    RejectedAgain w bufSize file k (t.rcopyStep bufSize poll)
      (m + if Transfer.oldData bufSize t.rcopy.pc t.written.length poll ∧ t.rcopy.pc.rejecting ∧
        t.written.length = k then 1 else 0) := by
  obtain ⟨lo, n, b, hjoint, hrejected⟩ := h
  cases hjoint.rcopyStep_takes hp harr with
  | @data j bytes hj hpc hpoll hread hsent hjoint' =>
      subst hpoll
      have hfew := hp.few
      have hle := hjoint.serves.holding.le
      have hnum := hp.seqNum_dataPacket (show j < packets file bufSize by omega)
      have hold : Transfer.oldData bufSize t.rcopy.pc b.next (.datagram bytes) = true ↔
          j < b.next := by
        rw [Transfer.oldData_iff]
        constructor
        · rintro ⟨_, packet, hpoll, hread', _, hlt⟩
          cases hpoll
          rw [hread] at hread'
          cases hread'
          rwa [hnum] at hlt
        · intro hlt
          exact ⟨bytes, _, rfl, hread, rfl, by rwa [hnum]⟩
      have harrive := hrejected.arrive hjoint.simulates.wellFormed j (dataPacket file bufSize j)
      refine ⟨lo, n, _, hjoint', ?_⟩
      simp only [hjoint.written_length, hold, hjoint.rejecting_iff]
      rw [hsent, List.countP_append, countP_wire]
      · exact harrive
      · intro i hi
        have hlt := arrive_nack_lt hjoint.simulates.wellFormed.next_le hi
        have hseen := arrive_seen_le (a := dataPacket file bufSize j) hjoint.seen_le hj
        omega
  | @other out hsent hout hjoint' hno =>
      refine ⟨lo, n, b, hjoint', ?_⟩
      have hno' : ¬(Transfer.oldData bufSize t.rcopy.pc t.written.length poll = true ∧
          t.rcopy.pc.rejecting = true ∧ t.written.length = k) := by
        rintro ⟨hold, hrejecting, _⟩
        obtain ⟨bytes, packet, hpoll, hread, hflag, _⟩ := Transfer.oldData_iff.mp hold
        rw [hno bytes packet hpoll hread hflag] at hrejecting
        cases hrejecting
      have hnone : out.countP (srejFor k) = 0 := by
        refine countP_none fun d hd => ?_
        obtain ⟨mySeq, rfl⟩ := hout d hd
        exact srejFor_other (by decide)
      rw [if_neg hno', hsent, List.countP_append, hnone]
      exact hrejected

theorem rejectedAgain_step (hp : Params w bufSize file) {e : TransferEvent} {t' : Transfer}
    (h : RejectedAgain w bufSize file k t m) (hstep : t.step bufSize e = some t') :
    RejectedAgain w bufSize file k t' (m + t.rejectsAgain bufSize k e) := by
  cases e with
  | server a =>
      obtain ⟨_, poll, rfl, hpoll⟩ := Transfer.step_server hstep
      obtain ⟨lo, n, b, hjoint, hrejected⟩ := h
      obtain ⟨lo', n', hjoint'⟩ := joint_serverStep hjoint hp (Transfer.arrives_of_poll hpoll)
      have hsame : (t.serverStep bufSize poll).toServer = t.toServer := by
        unfold Transfer.serverStep
        dsimp only
        split <;> rfl
      exact ⟨lo', n', b, hjoint', by rwa [hsame]⟩
  | rcopy a =>
      obtain ⟨_, poll, rfl, hpoll⟩ := Transfer.step_rcopy hstep
      rw [Transfer.rejectsAgain, hpoll]
      exact rejectedAgain_rcopyStep hp h (Transfer.arrives_of_poll hpoll)

/-- Whatever the network does, a packet that rcopy has rejected has been rejected
once, and once more each time it was to be rejected again. -/
theorem rejects_again_when_old (hp : Params w bufSize file) {toServer toRcopy : List (List UInt8)}
    (hserver : ∀ d ∈ toServer, Transfer.Setup d) (hrcopy : ∀ d ∈ toRcopy, Transfer.Setup d)
    {events : List TransferEvent}
    (hrun : run (Transfer.step bufSize) (Transfer.start w bufSize file toServer toRcopy) events =
      some t) (k : ℕ) :
    t.toServer.countP (srejFor k) =
      (if t.toServer.any (srejFor k) then 1 else 0) +
        total (Transfer.step bufSize) (fun t e => t.rejectsAgain bufSize k e)
          (Transfer.start w bufSize file toServer toRcopy) events := by
  have hstep : ∀ t e t' m, RejectedAgain w bufSize file k t m → t.step bufSize e = some t' →
      RejectedAgain w bufSize file k t' (m + t.rejectsAgain bufSize k e) :=
    fun t e t' m h hstep => rejectedAgain_step hp h hstep
  obtain ⟨lo, n, b, _, hrejected⟩ := run_total hstep (rejectedAgain_start hp hserver hrcopy) hrun
  have hany : t.toServer.any (srejFor k) = true ↔ 0 < t.toServer.countP (srejFor k) := by
    rw [List.any_eq_true, List.countP_pos_iff]
  rw [Nat.zero_add] at hrejected
  simp only [hany]
  exact hrejected.count_eq

/-- Packet 1 is overtaken by packet 2, and then packet 0 arrives a second time. -/
theorem rejects_again_when_old_repeated : ∃ t,
    run (Transfer.step 1) (Transfer.start 3 1 [1, 2] [] []) [.server .timeout, .server .timeout,
      .rcopy (.recv 0), .rcopy (.recv 2), .rcopy (.recv 0)] = some t ∧
      t.toServer.countP (srejFor 1) = 2 ∧ t.toServer.countP (srejFor 2) = 0 := by
  have hp : Params 3 1 [1, 2] := ⟨by decide, by decide, by decide, by decide, by decide⟩
  have hnone : ∀ d ∈ ([] : List (List UInt8)), Transfer.Setup d := fun d hd => by cases hd
  have hrun : (run (Transfer.step 1) (Transfer.start 3 1 [1, 2] [] []) [.server .timeout,
      .server .timeout, .rcopy (.recv 0), .rcopy (.recv 2), .rcopy (.recv 0)]).map
      (fun t => (t.toServer.any (srejFor 1), t.toServer.any (srejFor 2))) = some (true, false) := by
    decide +kernel
  obtain ⟨t, ht, hsent⟩ := Option.map_eq_some_iff.mp hrun
  obtain ⟨hfirst, hsecond⟩ := Prod.mk.inj hsent
  have hcount := rejects_again_when_old hp hnone hnone ht 1
  have hcount' := rejects_again_when_old hp hnone hnone ht 2
  rw [hfirst, if_pos rfl] at hcount
  rw [hsecond, if_neg Bool.false_ne_true] at hcount'
  refine ⟨t, ht, hcount.trans ?_, hcount'.trans ?_⟩
  · decide +kernel
  · decide +kernel

end
end SelRej

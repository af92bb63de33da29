import Mathlib.Tactic.SplitIfs
import SelRej.ControlPackets
import SelRej.PartialRun
import SelRej.ServerTransfer
import SelRej.Setup

/-!
# What each receive asks for

Every receive of the two programs names an array and a length, each computed
on its own. `ReceivesFit` compares them at all places. They agree everywhere
but in `getInitialResp`, where `bufSize` has been converted to network order
between the declaration of the array and the receive.

The lengths of two receives also have to agree with each other: a data packet
can reach rcopy through `ackInitialResp`, which asks for `MAXBUF` bytes, and
through `recvPacket`, which asks for `bufSize + HEADER_LEN`. `recvfrom` drops
what is beyond the length it is given. `HandsOverWhole` says that a packet
accepted by the first is what the second would have read.
-/
namespace SelRej
open Chunks OnesComplement PartialRun

def Server.respBufLen (bufSize : UInt16) : ServerPc → ℕ
  | .checkForRRs => max bufSize.toNat 4 + HEADER_LEN
  | .openWindow _ _ => 4 + HEADER_LEN
  | .processEof _ _ _ | .returned => bufSize.toNat + HEADER_LEN

def RcopySetup.respBufLen (req : Request) : RcopySetupPc → ℕ
  | .getInitialResp _ _ => req.bufSize.toNat + HEADER_LEN
  | .ackInitialResp _ _ => MAX_PDU_LEN
  | .recvDataLoop _ => req.bufSize.toNat + HEADER_LEN

def Rcopy.pduBufLen (bufSize : UInt16) : RcopyPc → ℕ
  | .start => MAX_PDU_LEN
  | _ => bufSize.toNat + HEADER_LEN

/-- At every place, in every round of the loop around it, the length asked for
is at most the size of the array. -/
structure ReceivesFit (bufSize : UInt16) : Prop where
  waitForClients : MAXBUF ≤ MAX_PDU_LEN
  setupResponse : MAXBUF ≤ MAX_PDU_LEN
  server : ∀ pc, Server.recvLen bufSize pc ≤ Server.respBufLen bufSize pc
  setup : ∀ req : Request, req.bufSize = bufSize → ∀ pc,
    RcopySetup.recvLen req pc ≤ RcopySetup.respBufLen req pc
  rcopy : ∀ pc, Rcopy.recvLen bufSize pc ≤ Rcopy.pduBufLen bufSize pc

theorem server_receives_fit (bufSize : UInt16) (pc : ServerPc) :
    Server.recvLen bufSize pc ≤ Server.respBufLen bufSize pc := by
  cases pc <;> exact Nat.le_refl _

theorem rcopy_receives_fit (bufSize : UInt16) (pc : RcopyPc) :
    Rcopy.recvLen bufSize pc ≤ Rcopy.pduBufLen bufSize pc := by
  cases pc with
  | start => exact show 1400 ≤ 1407 by decide
  | _ => exact Nat.le_refl _

/-- Only the receive of `getInitialResp` can ask for too much. -/
theorem setup_receive_fits (req : Request) {pc : RcopySetupPc}
    (hpc : ∀ count respBuf, pc ≠ .getInitialResp count respBuf) :
    RcopySetup.recvLen req pc ≤ RcopySetup.respBufLen req pc := by
  cases pc with
  | getInitialResp count respBuf => exact absurd rfl (hpc count respBuf)
  | ackInitialResp count respBuf => exact show 1400 ≤ 1407 by decide
  | recvDataLoop packet => exact Nat.le_refl _

/-- All receives stay inside their arrays exactly when the conversion to
network order does not make the buffer size larger. -/
theorem receivesFit_iff (bufSize : UInt16) :
    ReceivesFit bufSize ↔ bufSize.toNat % 256 ≤ bufSize.toNat / 256 := by
  have hswap := htons_toNat bufSize
  have hlen : ∀ (req : Request) (count : ℕ) (respBuf : List UInt8), req.bufSize = bufSize →
      (RcopySetup.recvLen req (.getInitialResp count respBuf) ≤
        RcopySetup.respBufLen req (.getInitialResp count respBuf) ↔
          bufSize.toNat % 256 ≤ bufSize.toNat / 256) := by
    intro req count respBuf hreq
    simp only [RcopySetup.recvLen, RcopySetup.respBufLen, hreq, hswap]
    omega
  constructor
  · intro hfit
    exact (hlen ⟨[], 0, bufSize⟩ 0 [] rfl).mp (hfit.setup _ rfl _)
  · intro hbytes
    refine ⟨by decide, by decide, server_receives_fit bufSize, ?_, rcopy_receives_fit bufSize⟩
    intro req hreq pc
    cases pc with
    | getInitialResp count respBuf => exact (hlen req count respBuf hreq).mpr hbytes
    | ackInitialResp count respBuf => exact setup_receive_fits req (by simp)
    | recvDataLoop packet => exact setup_receive_fits req (by simp)

/-- With a buffer size of 1000, which is 59395 in network order, 59402 bytes
are asked for into an array of 1007, and a datagram of 1008 bytes runs over it. -/
theorem thousand_overruns : ¬ReceivesFit 1000 ∧
    RcopySetup.recvLen ⟨[], 0, 1000⟩ (.getInitialResp 0 []) = 59402 ∧
      RcopySetup.respBufLen ⟨[], 0, 1000⟩ (.getInitialResp 0 []) = 1007 ∧
        (RcopySetup.step ⟨[], 0, 1000⟩ ⟨.server, .getInitialResp 0 []⟩
          (some (.server, List.replicate 1008 0))).result = .error .outOfBounds := by
  refine ⟨fun hfit => ?_, by decide, by decide, by decide +kernel⟩
  exact absurd (hfit.setup ⟨[], 0, 1000⟩ rfl (.getInitialResp 0 [])) (by decide)

namespace RcopySetup

def next (req : Request) (r : RcopySetup) (recv : Recv) : Option RcopySetup :=
  (r.step req recv).result.toOption

/-- rcopy waits in `ackInitialResp` for the first time. -/
def acknowledging (serverS : Addr) : RcopySetup := ⟨serverS, .ackInitialResp 0 []⟩

def lastReceived (recvs : List Recv) : Option (List UInt8) :=
  (recvs.filterMap fun recv => recv.map Prod.snd).getLast?

/-- Whenever `ackInitialResp` returns a data packet after the last datagram
received was DATA PDU `k`, the packet is the whole of that PDU, and the one
that `recvPacket` makes of it. -/
def HandsOverWhole (file : List UInt8) (bufSize : UInt16) (k : ℕ) : Prop :=
  ∀ (req : Request) (serverS : Addr) (recvs : List Recv) (recv : Recv) (r r' : RcopySetup)
    (count : ℕ) (respBuf : List UInt8) (packet : PduS), req.bufSize = bufSize →
    run (next req) (acknowledging serverS) recvs = some r → r.pc = .ackInitialResp count respBuf →
    next req r recv = some r' → r'.pc = .recvDataLoop packet → packet.flag = DATA_FLAG →
    lastReceived (recvs ++ [recv]) = some (dataBytes file bufSize k) →
    packet.payload = chunk file bufSize.toNat k ∧
      packet.payLen.toNat = (chunk file bufSize.toNat k).length ∧
      interpPDU ((dataBytes file bufSize k).take (Rcopy.recvLen bufSize .recvDataLoop)) =
        .ok (some packet)

/-- The buffer does not end the loop of `ackInitialResp`. -/
def Unanswered (respBuf : List UInt8) : Prop :=
  ∀ packet, interpPDU respBuf = .ok (some packet) →
    ¬(packet.flag = SETUPRESP_FLAG ∨ packet.flag = DATA_FLAG)

section
variable {req : Request} {r r' : RcopySetup} {count : ℕ} {respBuf : List UInt8} {recv : Recv}
  {packet : PduS}

theorem unanswered_nil : Unanswered [] := by
  have hnone : interpPDU [] = .ok none := by decide +kernel
  intro packet hpacket
  rw [hnone] at hpacket
  cases hpacket

theorem ackInitialRespTest_ends (count : ℕ) (respBuf : List UInt8) (r : RcopySetup) :
    (ackInitialRespTest count respBuf r).Ends fun r' =>
      (r'.pc = .ackInitialResp count respBuf ∧ Unanswered respBuf) ∨
        ∃ packet, r'.pc = .recvDataLoop packet ∧ interpPDU respBuf = .ok (some packet) ∧
          (packet.flag = SETUPRESP_FLAG ∨ packet.flag = DATA_FLAG) := by
  have hsend : ∀ Q : RcopySetup → Prop, (∀ r', r'.pc = .ackInitialResp count respBuf → Q r') →
      (ackInitialRespSend count respBuf r).Ends Q := fun Q hQ =>
    Emit.ends_emit (Emit.ends_pure (hQ _ rfl))
  unfold ackInitialRespTest
  apply Emit.ends_lift
  intro received hread
  cases received with
  | none =>
      dsimp only
      split_ifs
      · refine hsend _ fun r' hpc => .inl ⟨hpc, fun packet hpacket => ?_⟩
        rw [hread] at hpacket
        cases hpacket
      · exact Emit.ends_halt
  | some packet =>
      dsimp only
      split_ifs with hflag hcount hcount
      · exact Emit.ends_halt
      · exact Emit.ends_pure (.inr ⟨packet, rfl, hread, hflag⟩)
      · refine hsend _ fun r' hpc => .inl ⟨hpc, fun other hother => ?_⟩
        rw [hread] at hother
        cases hother
        exact hflag
      · exact Emit.ends_halt

/-- The buffer of the condition is the one filled last. -/
theorem next_ackInitialResp (hpc : r.pc = .ackInitialResp count respBuf)
    (hnext : next req r recv = some r') : ∃ buf,
    (recv = none ∧ buf = respBuf ∨
        ∃ src bytes, recv = some (src, bytes) ∧ buf = bytes.take MAXBUF) ∧
      ((r'.pc = .ackInitialResp (count + 1) buf ∧ Unanswered buf) ∨
        ∃ packet, r'.pc = .recvDataLoop packet ∧ interpPDU buf = .ok (some packet) ∧
          (packet.flag = SETUPRESP_FLAG ∨ packet.flag = DATA_FLAG)) := by
  have hresult : (r.step req recv).result = .ok r' := toOption_eq_some.mp hnext
  obtain ⟨serverS, pc⟩ := r
  obtain rfl : pc = .ackInitialResp count respBuf := hpc
  cases recv with
  | none =>
      exact ⟨respBuf, .inl ⟨rfl, rfl⟩, ackInitialRespTest_ends (count + 1) respBuf _ r' hresult⟩
  | some received =>
      exact ⟨received.2.take MAXBUF, .inr ⟨received.1, received.2, rfl, rfl⟩,
        ackInitialRespTest_ends (count + 1) (received.2.take MAXBUF) _ r' hresult⟩

def Acknowledges (r : RcopySetup) : Prop :=
  match r.pc with
  | .getInitialResp _ _ => False
  | .ackInitialResp _ respBuf => Unanswered respBuf
  | .recvDataLoop _ => True

theorem acknowledges_next (h : Acknowledges r) (hnext : next req r recv = some r') :
    Acknowledges r' := by
  cases hpc : r.pc with
  | getInitialResp count respBuf =>
      rw [Acknowledges, hpc] at h
      exact h.elim
  | ackInitialResp count respBuf =>
      obtain ⟨buf, _, ⟨hpc', hbuf⟩ | ⟨packet, hpc', _⟩⟩ := next_ackInitialResp hpc hnext
      · rw [Acknowledges, hpc']
        exact hbuf
      · rw [Acknowledges, hpc']
        trivial
  | recvDataLoop packet =>
      obtain ⟨serverS, pc⟩ := r
      obtain rfl : pc = .recvDataLoop packet := hpc
      cases recv <;> cases hnext <;> trivial

/-- In every run, the packet that `ackInitialResp` returns is what it has read
of the last datagram. -/
theorem read_of_returns {serverS : Addr} {recvs : List Recv}
    (hrun : run (next req) (acknowledging serverS) recvs = some r)
    (hpc : r.pc = .ackInitialResp count respBuf) (hnext : next req r recv = some r')
    (hpc' : r'.pc = .recvDataLoop packet) {bytes : List UInt8}
    (hlast : lastReceived (recvs ++ [recv]) = some bytes) :
    interpPDU (bytes.take MAXBUF) = .ok (some packet) := by
  have hstart : Acknowledges (acknowledging serverS) := unanswered_nil
  have hack : Acknowledges r :=
    run_induct (fun _ _ _ h hstep => acknowledges_next h hstep) hstart hrun
  rw [Acknowledges, hpc] at hack
  obtain ⟨buf, hbuf, ⟨hwaits, _⟩ | ⟨packet', hreturns, hread, hflag⟩⟩ :=
    next_ackInitialResp hpc hnext
  · rw [hwaits] at hpc'
    cases hpc'
  · rw [hreturns] at hpc'
    cases hpc'
    rcases hbuf with ⟨_, rfl⟩ | ⟨src, bytes', rfl, rfl⟩
    · exact absurd hflag (hack packet hread)
    · rw [lastReceived, List.filterMap_append] at hlast
      simp only [List.filterMap_cons, Option.map_some, List.filterMap_nil, List.getLast?_concat,
        Option.some.injEq] at hlast
      rwa [← hlast]

theorem ackInitialRespTest_of_data (hread : interpPDU respBuf = .ok (some packet))
    (hflag : packet.flag = DATA_FLAG) (hcount : count < 10) (r : RcopySetup) :
    ackInitialRespTest count respBuf r = ⟨[], .ok { r with pc := .recvDataLoop packet }⟩ := by
  unfold ackInitialRespTest
  rw [hread, Emit.liftM_eq, Emit.bind_silent]
  dsimp only
  rw [if_neg (not_not.mpr (.inr hflag)), if_neg (Nat.not_le_of_lt hcount)]
  rfl

end

section
variable {file : List UInt8} {bufSize : UInt16} {k : ℕ}

theorem le_byteSum_cons (b : UInt8) (bs : List UInt8) : b.toNat ≤ byteSum (b :: bs) := by
  cases bs with
  | nil => exact Nat.le_refl _
  | cons c bs =>
      simp only [byteSum]
      omega

theorem byteSum_take_dataBytes_pos : 0 < byteSum ((dataBytes file bufSize k).take 1400) := by
  have hflag := le_byteSum_cons DATA_FLAG ((chunk file bufSize.toNat k).take 1393)
  have hthree : DATA_FLAG.toNat = 3 := rfl
  simp only [dataBytes, createPdu, layout, htonl, hostBytes, List.cons_append, List.nil_append,
    List.take_succ_cons, byteSum] at hflag ⊢
  omega

theorem drop_dataBytes (n : ℕ) :
    (dataBytes file bufSize k).drop (n + 7) = (chunk file bufSize.toNat k).drop n := by
  simp only [dataBytes, createPdu, layout, htonl, hostBytes, List.cons_append, List.nil_append,
    List.drop_succ_cons]

/-- A cut-off PDU passes the check exactly when its lost tail adds up to a
multiple of 65535. -/
theorem in_cksum_take_dataBytes (hbuf : bufSize.toNat ≤ 1400)
    (hlong : 1393 < (chunk file bufSize.toNat k).length) :
    in_cksum ((dataBytes file bufSize k).take 1400) = 0 ↔
      byteSum ((chunk file bufSize.toNat k).drop 1393) % 65535 = 0 := by
  have hle := chunk_length_le file bufSize.toNat k
  have hlen : (dataBytes file bufSize k).length = 7 + (chunk file bufSize.toNat k).length :=
    createPdu_length ..
  have hvalid : in_cksum (dataBytes file bufSize k) = 0 :=
    in_cksum_createPdu _ _ (by omega)
  rw [in_cksum_take_eq_zero_iff (by omega) hvalid (by decide) (by omega)
    byteSum_take_dataBytes_pos, drop_dataBytes 1393]

theorem handsOverWhole_of_short (hshort : (chunk file bufSize.toNat k).length ≤ 1393) :
    HandsOverWhole file bufSize k := by
  intro req serverS recvs recv r r' count respBuf packet _ hrun hpc hnext hpc' _ hlast
  have hle := chunk_length_le file bufSize.toNat k
  have hread : interpPDU ((dataBytes file bufSize k).take 1400) = .ok (some packet) :=
    read_of_returns hrun hpc hnext hpc' hlast
  rw [dataBytes, interpPDU_take_of_le _ _ (by omega) (show 7 + _ ≤ 1400 by omega)] at hread
  cases hread
  refine ⟨rfl, PduS.payLen_eq _, ?_⟩
  exact interpPDU_take_of_le _ _ (by omega) (show 7 + _ ≤ bufSize.toNat + 7 by omega)

theorem handsOverWhole_of_corrupt (hbuf : bufSize.toNat ≤ 1400)
    (hlong : 1393 < (chunk file bufSize.toNat k).length)
    (hsum : byteSum ((chunk file bufSize.toNat k).drop 1393) % 65535 ≠ 0) :
    HandsOverWhole file bufSize k := by
  intro req serverS recvs recv r r' count respBuf packet _ hrun hpc hnext hpc' _ hlast
  have hread : interpPDU ((dataBytes file bufSize k).take 1400) = .ok (some packet) :=
    read_of_returns hrun hpc hnext hpc' hlast
  rw [Ne, ← in_cksum_take_dataBytes hbuf hlong] at hsum
  rw [interpPDU_of_corrupt hsum] at hread
  cases hread

/-- One that passes the check is returned without its tail. -/
theorem not_handsOverWhole (hbuf : bufSize.toNat ≤ 1400)
    (hlong : 1393 < (chunk file bufSize.toNat k).length)
    (hsum : byteSum ((chunk file bufSize.toNat k).drop 1393) % 65535 = 0) :
    ¬HandsOverWhole file bufSize k := by
  intro hwhole
  have hle := chunk_length_le file bufSize.toNat k
  have hlen : (dataBytes file bufSize k).length = 7 + (chunk file bufSize.toNat k).length :=
    createPdu_length ..
  rw [← in_cksum_take_dataBytes hbuf hlong] at hsum
  have htake : ((dataBytes file bufSize k).take 1400).length = 1400 := by
    rw [List.length_take]
    omega
  obtain ⟨packet, hread, hpayload⟩ := interpPDU_of_valid hsum (by rw [htake]; decide) (by omega)
  have hflag : packet.flag = DATA_FLAG := by
    obtain ⟨received, hreceived, hflag⟩ := interpPDU_take (UInt32.ofNat k) DATA_FLAG
      (chunk file bufSize.toNat k) (show 7 ≤ 1400 by decide) (by decide)
    have hsame := hreceived.symm.trans hread
    cases hsame
    exact hflag packet rfl
  have hnext : next ⟨[], 0, bufSize⟩ (acknowledging .server)
      (some (.server, dataBytes file bufSize k)) = some ⟨.server, .recvDataLoop packet⟩ := by
    have hstep : step ⟨[], 0, bufSize⟩ (acknowledging .server)
        (some (.server, dataBytes file bufSize k)) = ⟨[], .ok ⟨.server, .recvDataLoop packet⟩⟩ :=
      ackInitialRespTest_of_data hread hflag (by decide) _
    rw [next, hstep]
    rfl
  have hpayload' := (hwhole ⟨[], 0, bufSize⟩ .server [] _ _ _ 0 [] packet rfl rfl rfl hnext rfl hflag
    rfl).1
  have hcut := congrArg List.length (hpayload.symm.trans hpayload')
  rw [List.length_drop, htake] at hcut
  simp only [HEADER_LEN] at hcut
  omega

/-- Every data packet that `ackInitialResp` returns is whole, exactly when the
chunk fits `MAXBUF` with its header, or the words beyond do not add up to a
multiple of 65535. -/
theorem handsOverWhole_iff (hbuf : bufSize.toNat ≤ 1400) (k : ℕ) :
    HandsOverWhole file bufSize k ↔ (chunk file bufSize.toNat k).length ≤ 1393 ∨
      byteSum ((chunk file bufSize.toNat k).drop 1393) % 65535 ≠ 0 := by
  constructor
  · intro hwhole
    by_contra hcut
    rw [not_or, Nat.not_le, not_not] at hcut
    exact not_handsOverWhole hbuf hcut.1 hcut.2 hwhole
  · intro hcond
    rcases Nat.lt_or_ge 1393 (chunk file bufSize.toNat k).length with hlong | hshort
    · exact handsOverWhole_of_corrupt hbuf hlong (hcond.resolve_left (Nat.not_le_of_lt hlong))
    · exact handsOverWhole_of_short hshort

end

theorem handsOverWhole_iff_cut : HandsOverWhole (List.replicate 1400 7) 1400 0 :=
  (handsOverWhole_iff (by decide) 0).mpr (.inr (by decide +kernel))

/-- A chunk of 1400 bytes that ends in seven zeros. -/
theorem zero_tail_lost : ¬HandsOverWhole (List.replicate 1400 0) 1400 0 :=
  not_handsOverWhole (by decide) (by decide +kernel) (by decide +kernel)

end RcopySetup

end SelRej

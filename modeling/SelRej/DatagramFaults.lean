import Mathlib.Tactic.SplitIfs
import SelRej.PduCodec
import SelRej.Server

/-!
# Faulty datagrams

What `interpPDU` makes of byte strings that `createPdu` did not build. A PDU
with one changed byte is always rejected: the change alters the sum of the
words by less than 65535. A PDU that is cut off passes the check exactly when
the words of the lost tail add up to a multiple of 65535. A string shorter
than the header can pass the check as well; `interpPDU` then asks `malloc` for
a negative size, which ends the process.
-/
namespace SelRej
open OnesComplement

/-- `errorFlipBits::run` complements one byte of the buffer, at a random index. -/
def errorFlipBits (pBuf : List UInt8) (byteToFlip : ℕ) : List UInt8 :=
  pBuf.modify byteToFlip (· ^^^ 255)

theorem in_cksum_set_ne {apdu : List UInt8} (hlen : apdu.length ≤ 65535)
    (hvalid : in_cksum apdu = 0) {i : ℕ} (hi : i < apdu.length) {b : UInt8} (hb : b ≠ apdu[i]) :
    in_cksum (apdu.set i b) ≠ 0 := by
  have hle := byteSum_le apdu
  rw [in_cksum_eq_zero_iff (byteSum_lt hlen)] at hvalid
  rw [Ne, in_cksum_eq_zero_iff (byteSum_lt (by rwa [List.length_set]))]
  exact fold_set_ne hi hb (by omega) hvalid

theorem xor_255_ne (b : UInt8) : b ^^^ 255 ≠ b := by
  intro h
  have hzero : (255 : UInt8) = 0 := by
    have hxor := congrArg (b ^^^ ·) h
    simpa only [← UInt8.xor_assoc, UInt8.xor_self, UInt8.zero_xor] using hxor
  exact absurd hzero (by decide)

/-- A PDU with one byte changed is rejected, whichever byte it is and whatever
it becomes; the error simulator's flip is such a change. -/
theorem interpPDU_changed_byte (seqNum : UInt32) (flag : UInt8) (payload : List UInt8)
    (h : payload.length ≤ 65528) (i : ℕ) (hi : i < (createPdu seqNum flag payload).length) :
    (∀ b, b ≠ (createPdu seqNum flag payload)[i] →
        interpPDU ((createPdu seqNum flag payload).set i b) = .ok none) ∧
      interpPDU (errorFlipBits (createPdu seqNum flag payload) i) = .ok none := by
  have hlen : (createPdu seqNum flag payload).length ≤ 65535 := by
    rw [createPdu_length]
    omega
  have hset : ∀ b, b ≠ (createPdu seqNum flag payload)[i] →
      interpPDU ((createPdu seqNum flag payload).set i b) = .ok none := fun b hb =>
    interpPDU_of_corrupt (in_cksum_set_ne hlen (in_cksum_createPdu seqNum flag h) hi hb)
  refine ⟨hset, ?_⟩
  rw [errorFlipBits, List.modify_eq_set, List.getElem?_eq_getElem hi, Option.getD_some]
  exact hset _ (xor_255_ne _)

theorem interpPDU_changed_byte_flag :
    (∀ b, b ≠ (createPdu 7 DATA_FLAG [1, 2])[6] →
        interpPDU ((createPdu 7 DATA_FLAG [1, 2]).set 6 b) = .ok none) ∧
      interpPDU (errorFlipBits (createPdu 7 DATA_FLAG [1, 2]) 6) = .ok none :=
  interpPDU_changed_byte 7 DATA_FLAG [1, 2] (by decide) 6 (by decide)

/-- Cut off at an even position behind its flag, a PDU still passes the check
exactly when the words that it has lost add up to a multiple of 65535. -/
theorem in_cksum_take_eq_zero_iff {apdu : List UInt8} (hlen : apdu.length ≤ 65535)
    (hvalid : in_cksum apdu = 0) {n : ℕ} (heven : n % 2 = 0) (hn : n ≤ apdu.length)
    (hpos : 0 < byteSum (apdu.take n)) :
    in_cksum (apdu.take n) = 0 ↔ byteSum (apdu.drop n) % 65535 = 0 := by
  have hsplit : byteSum apdu = byteSum (apdu.take n) + byteSum (apdu.drop n) := by
    rw [← byteSum_append (by rwa [List.length_take, Nat.min_eq_left hn]), List.take_append_drop]
  have hle := byteSum_le apdu
  rw [in_cksum_eq_zero_iff (byteSum_lt hlen), fold_eq_iff (by omega)] at hvalid
  rw [in_cksum_eq_zero_iff (by omega), fold_eq_iff (by omega)]
  omega

theorem exists_header {apdu : List UInt8} (h : HEADER_LEN ≤ apdu.length) :
    ∃ s₀ s₁ s₂ s₃ c₀ c₁ flag, ∃ payload : List UInt8,
      apdu = s₀ :: s₁ :: s₂ :: s₃ :: c₀ :: c₁ :: flag :: payload := by
  match apdu with
  | s₀ :: s₁ :: s₂ :: s₃ :: c₀ :: c₁ :: flag :: payload =>
      exact ⟨s₀, s₁, s₂, s₃, c₀, c₁, flag, payload, rfl⟩
  | [] | [_] | [_, _] | [_, _, _] | [_, _, _, _] | [_, _, _, _, _] | [_, _, _, _, _, _] =>
      simp only [List.length_cons, List.length_nil, HEADER_LEN] at h
      omega

theorem interpPDU_of_valid {apdu : List UInt8} (hvalid : in_cksum apdu = 0)
    (h : HEADER_LEN ≤ apdu.length) (hlen : apdu.length ≤ 65535 + HEADER_LEN) :
    ∃ packet, interpPDU apdu = .ok (some packet) ∧ packet.payload = apdu.drop HEADER_LEN := by
  obtain ⟨s₀, s₁, s₂, s₃, c₀, c₁, flag, payload, rfl⟩ := exists_header h
  have hpayload : payload.length < 65536 := by
    simp only [List.length_cons, HEADER_LEN] at hlen
    omega
  unfold interpPDU
  rw [if_neg (fun hne => hne hvalid)]
  dsimp only
  rw [dif_pos hpayload]
  exact ⟨_, rfl, rfl⟩

/-- `interpPDU` with the struct it fills. -/
def interpPDUInto (packet : PduS) (apdu : List UInt8) : Except Halt (ℕ × PduS) := do
  match ← interpPDU apdu with
  | none => return (0, packet)
  | some filled => return (1, filled)

/-- `interpPDU` returns, whatever struct it is called with: 0 with the struct
as it was, or 1 for a string with a whole header and a valid checksum. -/
def Harmless (apdu : List UInt8) : Prop :=
  ∀ packet, ∃ ret packet', interpPDUInto packet apdu = .ok (ret, packet') ∧
    (ret = 0 ∧ packet' = packet ∨ ret = 1 ∧ HEADER_LEN ≤ apdu.length ∧ in_cksum apdu = 0)

theorem harmless_iff {apdu : List UInt8} (hlen : apdu.length ≤ 65535) :
    Harmless apdu ↔ HEADER_LEN ≤ apdu.length ∨ in_cksum apdu ≠ 0 := by
  constructor
  · intro hharmless
    by_contra hshort
    rw [not_or, not_not, Nat.not_le] at hshort
    obtain ⟨ret, packet', heq, _⟩ := hharmless ⟨0, 0, 0, [], 0, UInt16.toNat_zero⟩
    rw [interpPDUInto, interpPDU_of_short hshort.2 hshort.1, error_bind] at heq
    cases heq
  · intro hcond packet
    by_cases hvalid : in_cksum apdu = 0
    · have hheader : HEADER_LEN ≤ apdu.length := hcond.resolve_right (not_not.mpr hvalid)
      obtain ⟨filled, heq, _⟩ := interpPDU_of_valid hvalid hheader (Nat.le_add_right_of_le hlen)
      refine ⟨1, filled, ?_, .inr ⟨rfl, hheader, hvalid⟩⟩
      rw [interpPDUInto, heq, ok_bind]
      rfl
    · refine ⟨0, packet, ?_, .inl ⟨rfl, rfl⟩⟩
      rw [interpPDUInto, interpPDU_of_corrupt hvalid, ok_bind]
      rfl

theorem Server.header_le_recvLen (bufSize : UInt16) (pc : ServerPc) :
    HEADER_LEN ≤ Server.recvLen bufSize pc := by
  cases pc <;> exact Nat.le_add_left _ _

theorem Rcopy.header_le_recvLen (bufSize : UInt16) (pc : RcopyPc) :
    HEADER_LEN ≤ Rcopy.recvLen bufSize pc := by
  cases pc with
  | start => exact show 7 ≤ 1400 by decide
  | _ => exact Nat.le_add_left _ _

section
variable {apdu : List UInt8}

/-- Wherever a child waits, a short datagram that passes the check ends it. -/
theorem child_exits_of_short (hvalid : in_cksum apdu = 0) (h : apdu.length < HEADER_LEN)
    (bufSize : UInt16) {s : Server} (hpc : s.pc ≠ .returned) :
    s.step bufSize (.datagram apdu) = ⟨[], .error .exit⟩ := by
  have hexit := interpPDU_of_short hvalid h
  have htake : ∀ pc, apdu.take (Server.recvLen bufSize pc) = apdu := fun pc =>
    List.take_of_length_le (Nat.le_trans (Nat.le_of_lt h) (Server.header_le_recvLen bufSize pc))
  cases hs : s.pc with
  | checkForRRs =>
      rw [(Server.step_checkForRRs hs).2, htake, Server.checkForRRsRecv, hexit, Emit.liftM_eq,
        Emit.bind_error]
  | openWindow count caller =>
      rw [(Server.step_openWindow hs).2, htake, Server.openWindowRecv, hexit, Emit.liftM_eq,
        Emit.bind_error]
  | processEof count flag respBuf =>
      rw [(Server.step_processEof hs).2, htake, Server.processEofTest, hexit, Emit.liftM_eq,
        Emit.bind_error]
      split_ifs
      · rfl
      · rfl
  | returned => exact absurd hs hpc

theorem rcopy_exits_of_short (hvalid : in_cksum apdu = 0) (h : apdu.length < HEADER_LEN)
    (bufSize : UInt16) (r : Rcopy) : r.step bufSize (.datagram apdu) = ⟨[], .error .exit⟩ := by
  unfold Rcopy.step
  dsimp only
  rw [List.take_of_length_le (Nat.le_trans (Nat.le_of_lt h) (Rcopy.header_le_recvLen bufSize r.pc)),
    interpPDU_of_short hvalid h, Emit.liftM_eq, Emit.bind_error]

/-- The datagrams that `interpPDU` does not survive are those that pass the
check without a whole header, and each of them ends whichever process receives
it during the transfer. -/
theorem harmless_datagrams (hlen : apdu.length ≤ 65535) :
    (Harmless apdu ↔ HEADER_LEN ≤ apdu.length ∨ in_cksum apdu ≠ 0) ∧
      (¬Harmless apdu → ∀ bufSize : UInt16,
        (∀ s : Server, s.pc ≠ .returned →
          s.step bufSize (.datagram apdu) = ⟨[], .error .exit⟩) ∧
        ∀ r : Rcopy, r.pc ≠ .finished →
          r.step bufSize (.datagram apdu) = ⟨[], .error .exit⟩) := by
  refine ⟨harmless_iff hlen, fun hharm bufSize => ?_⟩
  rw [harmless_iff hlen, not_or, not_not, Nat.not_le] at hharm
  exact ⟨fun s hpc => child_exits_of_short hharm.2 hharm.1 bufSize hpc,
    fun r _ => rcopy_exits_of_short hharm.2 hharm.1 bufSize r⟩

end

theorem harmless_datagrams_refused :
    Harmless [1, 2, 3] ↔ HEADER_LEN ≤ ([1, 2, 3] : List UInt8).length ∨ in_cksum [1, 2, 3] ≠ 0 :=
  (harmless_datagrams (by decide)).1

/-- Two bytes end a child that has just sent packet 0. -/
theorem two_bytes_exit : ¬Harmless [255, 255] ∧
    (Server.init 1 8 []).result.toOption.map
      (fun s => (s.step 8 (.datagram [255, 255])).result.map fun _ => ()) =
        some (.error .exit) := by
  refine ⟨?_, by decide +kernel⟩
  rw [harmless_iff (by decide)]
  decide +kernel

end SelRej

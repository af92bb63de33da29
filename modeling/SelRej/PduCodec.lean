import SelRej.OnesComplement
import SelRej.Pdu

/-!
# Decoding undoes encoding

The checksum of a PDU is the complement of the folded sum of its other words,
so the words of a PDU that `createPdu` built fold to 65535 and `interpPDU`
accepts it. The fields come back because `ntohl` and `hostShort` read what
`htonl` and `hostBytes` wrote.
-/
namespace SelRej
open CInt OnesComplement

theorem ntohl_htonl (n : UInt32) :
    ntohl (UInt8.ofNat (n.toNat / 16777216)) (UInt8.ofNat (n.toNat / 65536))
      (UInt8.ofNat (n.toNat / 256)) (UInt8.ofNat n.toNat) = n := by
  have hn := n.toNat_lt
  apply UInt32.toNat_inj.mp
  simp only [ntohl, UInt8.toNat_ofNat', UInt32.toNat_ofNat']
  omega

theorem hostShort_toNat (b₀ b₁ : UInt8) :
    (hostShort b₀ b₁).toNat = b₀.toNat + 256 * b₁.toNat := by
  have h₀ := b₀.toNat_lt
  have h₁ := b₁.toNat_lt
  simp only [hostShort, UInt16.toNat_ofNat']
  omega

theorem hostShort_hostBytes (n : UInt16) :
    hostShort (UInt8.ofNat n.toNat) (UInt8.ofNat (n.toNat / 256)) = n := by
  have hn := n.toNat_lt
  apply UInt16.toNat_inj.mp
  rw [hostShort_toNat]
  simp only [UInt8.toNat_ofNat']
  omega

theorem readSeq_htonl (n : UInt32) : readSeq (htonl n) = .ok n :=
  congrArg Except.ok (ntohl_htonl n)

@[simp] theorem htonl_length (n : UInt32) : (htonl n).length = 4 := rfl

/-- Without overflow the accumulator holds the exact sum of the words. -/
theorem wordSum_eq {bs : List UInt8} {s : ℕ} (h : s + byteSum bs < 2147483648) :
    wordSum s bs = (s + byteSum bs : ℕ) := by
  fun_induction byteSum bs generalizing s with
  | case1 => rfl
  | case2 b =>
      rw [wordSum]
      exact i32_natCast h
  | case3 b₀ b₁ bs ih =>
      have hword := hostShort_toNat b₀ b₁
      have hstep : i32 ((s : ℤ) + (hostShort b₀ b₁).toNat) =
          ((s + (hostShort b₀ b₁).toNat : ℕ) : ℤ) := i32_natCast (by omega)
      rw [wordSum, hstep, ih (by omega)]
      omega

theorem in_cksum_toNat {bs : List UInt8} (h : byteSum bs < 2147483648) :
    (in_cksum bs).toNat = 65535 - fold (byteSum bs) := by
  have hsum : wordSum 0 bs = (byteSum bs : ℕ) := by
    have hexact := wordSum_eq (s := 0) (show 0 + byteSum bs < 2147483648 by omega)
    rwa [Nat.zero_add] at hexact
  have hfirst : i32 ((byteSum bs : ℤ) / 65536 + (byteSum bs : ℤ) % 65536) =
      ((byteSum bs / 65536 + byteSum bs % 65536 : ℕ) : ℤ) := by
    rw [i32_of_range] <;> omega
  have hsecond : i32 (((byteSum bs / 65536 + byteSum bs % 65536 : ℕ) : ℤ) +
      ((byteSum bs / 65536 + byteSum bs % 65536 : ℕ) : ℤ) / 65536) =
      ((byteSum bs / 65536 + byteSum bs % 65536 +
        (byteSum bs / 65536 + byteSum bs % 65536) / 65536 : ℕ) : ℤ) := by
    rw [i32_of_range] <;> omega
  simp only [in_cksum, hsum, hfirst, hsecond, UInt16.ofInt, UInt16.toNat_ofNat', fold]
  omega

/-- A datagram passes the check exactly when its words fold to 65535. -/
theorem in_cksum_eq_zero_iff {bs : List UInt8} (h : byteSum bs < 2147483648) :
    in_cksum bs = 0 ↔ fold (byteSum bs) = 65535 := by
  have hle := fold_le (byteSum bs)
  rw [← UInt16.toNat_inj, in_cksum_toNat h]
  simp only [UInt16.toNat_zero]
  omega

/-- No datagram of a 16-bit length overflows the accumulator. -/
theorem byteSum_lt {bs : List UInt8} (h : bs.length ≤ 65535) : byteSum bs < 2147483648 := by
  have := byteSum_le bs
  omega

@[simp] theorem layout_length (seqNum : UInt32) (checksum : UInt16) (flag : UInt8)
    (payload : List UInt8) : (layout seqNum checksum flag payload).length = 7 + payload.length := by
  simp only [layout, htonl, hostBytes, List.length_append, List.length_cons, List.length_nil]
  omega

@[simp] theorem createPdu_length (seqNum : UInt32) (flag : UInt8) (payload : List UInt8) :
    (createPdu seqNum flag payload).length = 7 + payload.length :=
  layout_length ..

/-- The checksum field is one word of the sum. -/
theorem byteSum_layout (seqNum : UInt32) (checksum : UInt16) (flag : UInt8)
    (payload : List UInt8) : byteSum (layout seqNum checksum flag payload) =
      byteSum (layout seqNum 0 flag payload) + checksum.toNat := by
  have hfield : ∀ c : UInt16, byteSum (hostBytes c) = c.toNat := by
    intro c
    have hc := c.toNat_lt
    simp only [hostBytes, byteSum, UInt8.toNat_ofNat']
    omega
  have hsplit : ∀ c : UInt16, byteSum (layout seqNum c flag payload) =
      byteSum (htonl seqNum) + c.toNat + byteSum (flag :: payload) := by
    intro c
    rw [layout, byteSum_append (by simp [htonl, hostBytes]), byteSum_append (by simp [htonl]),
      hfield]
  rw [hsplit, hsplit]
  simp only [UInt16.toNat_zero]
  omega

theorem in_cksum_createPdu (seqNum : UInt32) (flag : UInt8) {payload : List UInt8}
    (h : payload.length ≤ 65528) : in_cksum (createPdu seqNum flag payload) = 0 := by
  have hzero : byteSum (layout seqNum 0 flag payload) < 2147483648 :=
    byteSum_lt (by rw [layout_length]; omega)
  have hfull : byteSum (createPdu seqNum flag payload) < 2147483648 :=
    byteSum_lt (by rw [createPdu_length]; omega)
  rw [in_cksum_eq_zero_iff hfull]
  simp only [createPdu]
  rw [byteSum_layout, in_cksum_toNat hzero]
  exact fold_add_complement (by omega)

/-- What `interpPDU` makes of a PDU built by `createPdu`. -/
def decoded (seqNum : UInt32) (flag : UInt8) (payload : List UInt8)
    (h : payload.length < 65536) : PduS where
  seqNum := seqNum
  checksum := in_cksum (layout seqNum 0 flag payload)
  flag := flag
  payload := payload
  payLen := UInt16.ofNat payload.length
  payLen_eq := payLen_toNat h

theorem interpPDU_createPdu (seqNum : UInt32) (flag : UInt8) {payload : List UInt8}
    (h : payload.length ≤ 65528) : interpPDU (createPdu seqNum flag payload) =
      .ok (some (decoded seqNum flag payload (by omega))) := by
  have hlen : payload.length < 65536 := by omega
  have hck := in_cksum_createPdu seqNum flag h
  unfold interpPDU
  rw [if_neg (by simp only [hck, ne_eq, not_true_eq_false, not_false_eq_true])]
  simp only [createPdu, layout, htonl, hostBytes, List.cons_append, List.nil_append, hlen,
    dif_pos, ntohl_htonl, hostShort_hostBytes, decoded]

theorem interpPDU_of_corrupt {apdu : List UInt8} (h : in_cksum apdu ≠ 0) :
    interpPDU apdu = .ok none := if_pos h

theorem interpPDU_of_short {apdu : List UInt8} (hvalid : in_cksum apdu = 0)
    (h : apdu.length < HEADER_LEN) : interpPDU apdu = .error .exit := by
  unfold interpPDU
  rw [if_neg (fun hne => hne hvalid)]
  clear hvalid
  split
  · simp only [List.length_cons, HEADER_LEN] at h
    omega
  · rfl

/-- A PDU cut off after its header is rejected, or read with its flag. -/
theorem interpPDU_take (seqNum : UInt32) (flag : UInt8) (payload : List UInt8) {n : ℕ}
    (hn : 7 ≤ n) (hn' : n ≤ 65535) :
    ∃ received, interpPDU ((createPdu seqNum flag payload).take n) = .ok received ∧
      ∀ packet, received = some packet → packet.flag = flag := by
  obtain ⟨m, rfl⟩ := Nat.exists_eq_add_of_le' hn
  have hlen : (payload.take m).length < 65536 := by
    rw [List.length_take]
    omega
  by_cases hck : in_cksum ((createPdu seqNum flag payload).take (m + 7)) = 0
  · unfold interpPDU
    rw [if_neg (fun hne => hne hck)]
    simp only [createPdu, layout, htonl, hostBytes, List.cons_append, List.nil_append,
      List.take_succ_cons, hlen, dif_pos]
    refine ⟨_, rfl, fun packet hpacket => ?_⟩
    cases hpacket
    rfl
  · exact ⟨none, interpPDU_of_corrupt hck, fun packet hpacket => by cases hpacket⟩

theorem flag_of_interpPDU {seqNum : UInt32} {flag : UInt8} {payload : List UInt8}
    {packet : PduS} (h : interpPDU (createPdu seqNum flag payload) = .ok (some packet)) :
    packet.flag = flag := by
  unfold interpPDU at h
  by_cases hck : in_cksum (createPdu seqNum flag payload) = 0
  · rw [if_neg (fun hne => hne hck)] at h
    simp only [createPdu, layout, htonl, hostBytes, List.cons_append, List.nil_append] at h
    by_cases hlen : payload.length < 65536
    · rw [dif_pos hlen] at h
      cases h
      rfl
    · rw [dif_neg hlen] at h
      cases h
  · rw [if_pos hck] at h
    cases h

theorem flag_of_beginning {seqNum : UInt32} {flag : UInt8} {payload : List UInt8} {n : ℕ}
    {packet : PduS} (hn : n ≤ 65535)
    (h : interpPDU ((createPdu seqNum flag payload).take n) = .ok (some packet)) :
    packet.flag = flag := by
  by_cases hheader : 7 ≤ n
  · obtain ⟨received, hread, hflag⟩ := interpPDU_take seqNum flag payload hheader hn
    rw [h] at hread
    cases hread
    exact hflag packet rfl
  · have hshort : ((createPdu seqNum flag payload).take n).length < HEADER_LEN :=
      Nat.lt_of_le_of_lt (List.length_take_le _ _) (Nat.lt_of_not_le hheader)
    by_cases hck : in_cksum ((createPdu seqNum flag payload).take n) = 0
    · rw [interpPDU_of_short hck hshort] at h
      cases h
    · rw [interpPDU_of_corrupt hck] at h
      cases h

/-- A PDU that fits is read whole. -/
theorem interpPDU_take_of_le (seqNum : UInt32) (flag : UInt8) {payload : List UInt8} {n : ℕ}
    (h : payload.length ≤ 65528) (hn : 7 + payload.length ≤ n) :
    interpPDU ((createPdu seqNum flag payload).take n) =
      .ok (some (decoded seqNum flag payload (by omega))) := by
  rw [List.take_of_length_le (by rwa [createPdu_length]), interpPDU_createPdu seqNum flag h]

/-- Decoding undoes encoding, and re-encoding the decoded struct reproduces
the bytes, the checksum included. -/
theorem createPdu_round_trip (seqNum : UInt32) (flag : UInt8) (payload : List UInt8)
    (h : payload.length ≤ 65528) :
    (createPdu seqNum flag payload).length = HEADER_LEN + payload.length ∧
      ∃ packet, interpPDU (createPdu seqNum flag payload) = .ok (some packet) ∧
        packet.seqNum = seqNum ∧ packet.flag = flag ∧ packet.payload = payload ∧
        packet.payLen.toNat = payload.length ∧
        recreatePDUS packet = createPdu seqNum flag payload :=
  ⟨createPdu_length seqNum flag payload, decoded seqNum flag payload (by omega),
    interpPDU_createPdu seqNum flag h, rfl, rfl, rfl, (decoded seqNum flag payload _).payLen_eq, rfl⟩

theorem createPdu_round_trip_odd :
    (createPdu 66051 DATA_FLAG [255, 0, 7]).length = HEADER_LEN + 3 ∧
      ∃ packet, interpPDU (createPdu 66051 DATA_FLAG [255, 0, 7]) = .ok (some packet) ∧
        packet.seqNum = 66051 ∧ packet.flag = DATA_FLAG ∧ packet.payload = [255, 0, 7] ∧
        packet.payLen.toNat = 3 ∧ recreatePDUS packet = createPdu 66051 DATA_FLAG [255, 0, 7] :=
  createPdu_round_trip 66051 DATA_FLAG [255, 0, 7] (by decide)

end SelRej

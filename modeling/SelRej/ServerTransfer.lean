import SelRej.Chunks
import SelRej.PduCodec
import SelRej.Server
import SelRej.ServerWindow

/-!
# The child sends the packets of a file

Packet `k` carries chunk `k` of the file, and there is one packet for each
read. While the child runs, its window is the interval from the lowest
unacknowledged number `lo` up to the next number `n`, its input file stands
after `n` reads, and `Place` says which loops it can wait in. There is one
specification lemma for each round of a loop; `Serves.step` sums them up.
-/
namespace SelRej
open Chunks

section
variable (file : List UInt8) (bufSize : UInt16)

def packets : ℕ := count file bufSize.toNat

theorem chunk_lt (k : ℕ) : (chunk file bufSize.toNat k).length < 65536 :=
  Nat.lt_of_le_of_lt (chunk_length_le file bufSize.toNat k) bufSize.toNat_lt

/-- Packet `k` as `interpPDU` reads it. -/
def dataPacket (k : ℕ) : PduS :=
  decoded (UInt32.ofNat k) DATA_FLAG (chunk file bufSize.toNat k) (chunk_lt file bufSize k)

/-- Packet `k` as `sendNextPdu` writes it. -/
def dataBytes (k : ℕ) : List UInt8 :=
  createPdu (UInt32.ofNat k) DATA_FLAG (chunk file bufSize.toNat k)

theorem recreatePDUS_dataPacket (k : ℕ) :
    recreatePDUS (dataPacket file bufSize k) = dataBytes file bufSize k := rfl

theorem dataBytes_length_le (k : ℕ) : (dataBytes file bufSize k).length ≤ bufSize.toNat + 7 := by
  have hle := chunk_length_le file bufSize.toNat k
  rw [dataBytes, createPdu_length]
  omega

def sentPackets (n : ℕ) : List PduS := (List.range n).map (dataPacket file bufSize)

@[simp] theorem sentPackets_length (n : ℕ) : (sentPackets file bufSize n).length = n := by
  rw [sentPackets, List.length_map, List.length_range]

theorem sentPackets_succ (n : ℕ) :
    sentPackets file bufSize (n + 1) = sentPackets file bufSize n ++ [dataPacket file bufSize n] := by
  rw [sentPackets, List.range_succ, List.map_append]
  rfl

theorem sentPackets_getElem {n k : ℕ} (hk : k < (sentPackets file bufSize n).length) :
    (sentPackets file bufSize n)[k] = dataPacket file bufSize k := by
  simp only [sentPackets, List.getElem_map, List.getElem_range]

end

/-- The bounds of a transfer: the buffer size fits rcopy's and the child's
buffers, and no number or sum of indices leaves `int`. -/
structure Params (w : ℕ) (bufSize : UInt16) (file : List UInt8) : Prop where
  window_pos : 1 ≤ w
  window_le : w ≤ 1073741824
  buf_pos : 1 ≤ bufSize.toNat
  buf_le : bufSize.toNat ≤ 1393
  few : packets file bufSize < 2147483647

section
variable {w : ℕ} {bufSize : UInt16} {file : List UInt8} {win : Window} {input : Input}
  {s : Server} {lo n : ℕ}

/-- Every PDU of the file fits a `uint16_t` length. -/
structure Sendable (bufSize : UInt16) (file : List UInt8) : Prop where
  buf_pos : 1 ≤ bufSize.toNat
  chunk_le : ∀ k, (chunk file bufSize.toNat k).length ≤ 65528

theorem Params.sendable (hp : Params w bufSize file) : Sendable bufSize file := by
  refine ⟨hp.buf_pos, fun k => ?_⟩
  have hle := chunk_length_le file bufSize.toNat k
  have hbuf := hp.buf_le
  omega

theorem Sendable.interpPDU_dataBytes (hs : Sendable bufSize file) (k : ℕ) :
    interpPDU (dataBytes file bufSize k) = .ok (some (dataPacket file bufSize k)) :=
  interpPDU_createPdu _ _ (hs.chunk_le k)

theorem Params.interpPDU_dataBytes (hp : Params w bufSize file) (k : ℕ) :
    interpPDU (dataBytes file bufSize k) = .ok (some (dataPacket file bufSize k)) :=
  hp.sendable.interpPDU_dataBytes k

theorem seqNum_dataPacket {k : ℕ} (hk : k < 4294967296) :
    (dataPacket file bufSize k).seqNum.toNat = k :=
  UInt32.toNat_ofNat_of_lt' hk

theorem Params.seqNum_dataPacket (hp : Params w bufSize file) {k : ℕ}
    (hk : k < packets file bufSize) : (dataPacket file bufSize k).seqNum.toNat = k := by
  have hfew := hp.few
  exact SelRej.seqNum_dataPacket (by omega)

/-- A PDU that fits a `uint16_t` length is sent whole. -/
theorem Sendable.shortPdu_dataBytes (hs : Sendable bufSize file) (k : ℕ) :
    shortPdu (dataBytes file bufSize k) = dataBytes file bufSize k := by
  have hle := hs.chunk_le k
  have hlen : (dataBytes file bufSize k).length = 7 + (chunk file bufSize.toNat k).length :=
    createPdu_length ..
  exact shortPdu_eq (by omega)

structure Holding (w : ℕ) (bufSize : UInt16) (file : List UInt8) (win : Window) (input : Input)
    (lo n : ℕ) : Prop where
  interval : Interval win w lo (sentPackets file bufSize n)
  upper : HasUpper win w lo
  le : n ≤ packets file bufSize
  rest : input.rest = file.drop (n * bufSize.toNat)
  feof : input.feof = decide (n = packets file bufSize)

namespace Holding

theorem lo_le (h : Holding w bufSize file win input lo n) : lo ≤ n := by
  have hle := h.interval.le
  rwa [sentPackets_length] at hle

theorem le_add (h : Holding w bufSize file win input lo n) : n ≤ lo + w := by
  have hfits := h.interval.fits
  rwa [sentPackets_length] at hfits

theorem isWindowFull_eq (h : Holding w bufSize file win input lo n) :
    isWindowFull win = .ok (decide (n = lo + w)) := by
  rw [h.interval.isWindowFull_eq h.upper, sentPackets_length]

theorem isWindowEmpty_eq (h : Holding w bufSize file win input lo n) :
    isWindowEmpty win = .ok (decide (lo = n)) := by
  rw [h.interval.isWindowEmpty_eq, sentPackets_length]

/-- Read `n` gives chunk `n`. -/
theorem fread_eq (h : Holding w bufSize file win input lo n) (hs : Sendable bufSize file)
    (hn : n < packets file bufSize) : input.fread bufSize.toNat = (chunk file bufSize.toNat n,
      ⟨file.drop ((n + 1) * bufSize.toNat), decide (n + 1 = packets file bufSize)⟩) := by
  have hshort := short_iff file bufSize.toNat hs.buf_pos (k := n)
  have hlast : decide (input.rest.length < bufSize.toNat) =
      decide (n + 1 = packets file bufSize) := by
    rw [h.rest]
    unfold packets at hn ⊢
    rw [decide_eq_decide, hshort]
    omega
  rw [Input.fread, hlast, h.feof, decide_eq_false (by omega), Bool.false_or, h.rest,
    List.drop_drop, Nat.succ_mul]
  rfl

theorem sendNextPdu_eq (h : Holding w bufSize file s.win s.input lo n)
    (hs : Sendable bufSize file) (hseq : s.seqNum.toNat = n) (hn : n < packets file bufSize)
    (hroom : n ≠ lo + w) : ∃ s',
    Server.sendNextPdu bufSize s = ⟨[dataBytes file bufSize n], .ok s'⟩ ∧
      Holding w bufSize file s'.win s'.input lo (n + 1) ∧ s'.seqNum = s.seqNum := by
  have hfull : isWindowFull s.win = .ok false := by
    rw [h.isWindowFull_eq, decide_eq_false hroom]
  have hnum : (dataPacket file bufSize n).seqNum.toNat = (sentPackets file bufSize n).length := by
    have hlt := s.seqNum.toNat_lt
    rw [seqNum_dataPacket (by omega), sentPackets_length]
  obtain ⟨win', hsent, hint, hupper⟩ := h.interval.serverSent_eq hfull hnum
  rw [← sentPackets_succ] at hint
  have hbytes : createPdu s.seqNum DATA_FLAG (chunk file bufSize.toNat n) =
      dataBytes file bufSize n := by
    rw [dataBytes, ← hseq, UInt32.ofNat_toNat]
  refine ⟨{ s with win := win', input := ⟨_, _⟩ }, ?_, ⟨hint, hupper.trans h.upper, hn, rfl, rfl⟩,
    rfl⟩
  have hlen : (dataBytes file bufSize n).length ≠ 0 := by
    rw [dataBytes, createPdu_length]
    omega
  unfold Server.sendNextPdu Server.getNextData
  simp only [h.fread_eq hs hn, hbytes, hs.shortPdu_dataBytes]
  rw [sendtoErr_eq hlen, Emit.emit_eq, Emit.bind_ok, hs.interpPDU_dataBytes, Emit.liftM_eq, Emit.bind_silent]
  dsimp only
  rw [hsent, Emit.liftM_eq, Emit.bind_silent]
  rfl

/-- An RR moves the lower bound to its number or does nothing, and crashes the
child when everything sent is acknowledged. -/
theorem recvRR_cases (h : Holding w bufSize file win input lo n) (hp : Params w bufSize file)
    (hn : 0 < n) (seqNum : UInt32) :
    (lo = n ∧ recvRR win seqNum = .error .nullDeref) ∨
      (lo < n ∧ (n < seqNum.toNat ∨ seqNum.toNat < lo) ∧
        ∃ ret, recvRR win seqNum = .ok (ret, win)) ∨
      (lo < n ∧ lo ≤ seqNum.toNat ∧ seqNum.toNat ≤ n ∧
        ∃ win', recvRR win seqNum = .ok (1, win') ∧
          Holding w bufSize file win' input seqNum.toNat n) := by
  have hfew := hp.few
  have hle := h.le
  rcases Nat.lt_or_eq_of_le h.lo_le with hlt | heq
  · have hcases := h.interval.recvRR_cases hp.window_le (by rwa [sentPackets_length])
      (by rw [sentPackets_length]; omega) seqNum
    rw [sentPackets_length] at hcases
    rcases hcases with ⟨hhigh, hret⟩ | ⟨hlow, hret⟩ | ⟨hge, hle', win', hret, hint, hup⟩
    · exact .inr (.inl ⟨hlt, .inl hhigh, 0, hret⟩)
    · exact .inr (.inl ⟨hlt, .inr hlow, 1, hret⟩)
    · exact .inr (.inr ⟨hlt, hge, hle', win', hret, hint, hup, hle, h.rest, h.feof⟩)
  · refine .inl ⟨heq, h.interval.recvRR_of_empty ?_ ?_ seqNum⟩
    · rwa [sentPackets_length]
    · rwa [sentPackets_length]

theorem srej_cases (h : Holding w bufSize file win input lo n) (hp : Params w bufSize file)
    (hn : 0 < n) (seqNum : UInt32) :
    (lo = n ∧ srej win seqNum = .error .nullDeref) ∨
      (lo < n ∧ srej win seqNum = .ok none) ∨
      (lo < n ∧ ∃ k, k < n ∧ srej win seqNum = .ok (some (dataPacket file bufSize k))) := by
  have hfew := hp.few
  have hle := h.le
  rcases Nat.lt_or_eq_of_le h.lo_le with hlt | heq
  · rcases h.interval.srej_answer (by rwa [sentPackets_length])
      (by rw [sentPackets_length]; omega) seqNum with hnone | ⟨k, hk, hsome⟩
    · exact .inr (.inl ⟨hlt, hnone⟩)
    · rw [sentPackets_getElem] at hsome
      rw [sentPackets_length] at hk
      exact .inr (.inr ⟨hlt, k, hk, hsome⟩)
  · refine .inl ⟨heq, h.interval.srej_of_empty ?_ ?_ seqNum⟩
    · rwa [sentPackets_length]
    · rwa [sentPackets_length]

theorem getLow_eq (h : Holding w bufSize file win input lo n) (hlt : lo < n) :
    getLow win = .ok (some (dataPacket file bufSize lo)) := by
  rw [h.interval.getLow_eq, List.getElem?_eq_getElem (by rwa [sentPackets_length]),
    sentPackets_getElem]

theorem srej_of_mem (h : Holding w bufSize file win input lo n) (hp : Params w bufSize file)
    {k : ℕ} (hk : lo ≤ k) (hk' : k < n) :
    srej win (UInt32.ofNat k) = .ok (some (dataPacket file bufSize k)) := by
  have hfew := hp.few
  have hle := h.le
  have hnum : (UInt32.ofNat k).toNat = k :=
    UInt32.toNat_ofNat_of_lt' (show k < 4294967296 by omega)
  have hmem := h.interval.srej_of_mem (show lo ≤ (UInt32.ofNat k).toNat by omega)
    (by rw [sentPackets_length]; omega) (by rw [sentPackets_length]; omega)
  rw [hmem, sentPackets_getElem, hnum]

end Holding

/-- Where the child can wait, and what its local variables hold there. -/
def Place (bufSize : UInt16) (file : List UInt8) (lo n : ℕ) (seqNum : UInt32) : ServerPc → Prop
  | .checkForRRs => 0 < n ∧ seqNum.toNat = n
  | .openWindow count caller => count ≤ 9 ∧ lo < n ∧ seqNum.toNat = n ∧
      (caller = .waitOnRRs → n = packets file bufSize)
  | .processEof count flag respBuf => count ≤ 9 ∧ flag = 255 ∧ interpPDU respBuf = .ok none ∧
      lo = n ∧ n = packets file bufSize
  | .returned => lo = n ∧ n = packets file bufSize

structure Serves (w : ℕ) (bufSize : UInt16) (file : List UInt8) (s : Server) (lo n : ℕ) :
    Prop where
  holding : Holding w bufSize file s.win s.input lo n
  place : Place bufSize file lo n s.seqNum s.pc

/-- What the child sends with the interval from `lo` to `n`. -/
inductive ServerSends (bufSize : UInt16) (file : List UInt8) (lo n : ℕ) : List UInt8 → Prop where
  | data {k : ℕ} (hk : k < n) : ServerSends bufSize file lo n (dataBytes file bufSize k)
  | eof (mySeq : UInt32) (hlo : lo = n) (hn : n = packets file bufSize) :
      ServerSends bufSize file lo n (createPdu mySeq EOF_FLAG [])

/-- Where a step leads. The child stops as it is, or it waits again with an
interval that has moved up; the lower bound then is the number of an RR, for
which `f` is an upper bound. -/
inductive Goes (w : ℕ) (bufSize : UInt16) (file : List UInt8) (lo n f : ℕ) :
    ServerProc Server → Prop where
  | stops {out : List (List UInt8)} {e : Halt}
      (hout : ∀ d ∈ out, ServerSends bufSize file lo n d) :
      Goes w bufSize file lo n f ⟨out, .error e⟩
  | waits {out : List (List UInt8)} {s' : Server} {lo' n' : ℕ}
      (hserves : Serves w bufSize file s' lo' n') (hlo : lo ≤ lo') (hn : n ≤ n')
      (hrr : lo' = lo ∨ lo' ≤ f) (hout : ∀ d ∈ out, ServerSends bufSize file lo' n' d)
      (hsent : ∀ k, n ≤ k → k < n' → dataBytes file bufSize k ∈ out) :
      Goes w bufSize file lo n f ⟨out, .ok s'⟩

variable {f : ℕ}

theorem Goes.of_le {lo' : ℕ} {p : ServerProc Server} (h : Goes w bufSize file lo' n f p)
    (hok : ∃ s', p.result = .ok s') (hlo : lo ≤ lo') (hrr : lo' ≤ f) :
    Goes w bufSize file lo n f p := by
  cases h with
  | stops hout =>
      obtain ⟨s', hs'⟩ := hok
      cases hs'
  | waits hserves hlo' hn hrr' hout hsent =>
      exact .waits hserves (Nat.le_trans hlo hlo') hn (.inr (by omega)) hout hsent

theorem goes_same {out : List (List UInt8)} (h : Serves w bufSize file s lo n)
    (hout : ∀ d ∈ out, ServerSends bufSize file lo n d) :
    Goes w bufSize file lo n f ⟨out, .ok s⟩ :=
  .waits h (Nat.le_refl _) (Nat.le_refl _) (.inl rfl) hout (fun k hk hk' => by omega)

theorem goes_still (h : Serves w bufSize file s lo n) : Goes w bufSize file lo n f ⟨[], .ok s⟩ :=
  goes_same h (fun _ hd => by cases hd)

theorem sends_singleton {d : List UInt8} (h : ServerSends bufSize file lo n d) :
    ∀ c ∈ [d], ServerSends bufSize file lo n c := by
  intro c hc
  rw [List.mem_singleton] at hc
  subst hc
  exact h

theorem waitOnRRsTest_eq (h : Holding w bufSize file s.win s.input lo n) :
    Server.waitOnRRsTest s =
      if lo = n then ⟨[createPdu s.seqNum EOF_FLAG []],
        .ok { s with seqNum := s.seqNum + 1, pc := .processEof 0 255 [] }⟩
      else ⟨[], .ok { s with pc := .openWindow 0 .waitOnRRs }⟩ := by
  unfold Server.waitOnRRsTest
  rw [h.isWindowEmpty_eq, Emit.liftM_eq, Emit.bind_silent]
  simp only [decide_eq_true_eq]
  rfl

theorem waitOnRRsTest_goes (h : Holding w bufSize file s.win s.input lo n)
    (hseq : s.seqNum.toNat = n) (hn : n = packets file bufSize) :
    Goes w bufSize file lo n f (Server.waitOnRRsTest s) ∧
      ∃ s', (Server.waitOnRRsTest s).result = .ok s' := by
  rw [waitOnRRsTest_eq h]
  split_ifs with heq
  · exact ⟨goes_same ⟨h, Nat.zero_le 9, rfl, by decide +kernel, heq, hn⟩
      (sends_singleton (.eof _ heq hn)), _, rfl⟩
  · have hle := h.lo_le
    exact ⟨goes_still ⟨h, Nat.zero_le 9, by omega, hseq, fun _ => hn⟩, _, rfl⟩

theorem transferDataTest_of_feof (h : Holding w bufSize file s.win s.input lo n)
    (hn : n = packets file bufSize) :
    Server.transferDataTest bufSize s = Server.waitOnRRsTest s := by
  unfold Server.transferDataTest
  rw [h.feof, decide_eq_true hn, if_pos rfl]

/-- With room in the window the next packet is sent. -/
theorem transferDataTest_sends (h : Holding w bufSize file s.win s.input lo n)
    (hs : Sendable bufSize file) (hseq : s.seqNum.toNat = n) (hn : n < packets file bufSize)
    (hroom : n ≠ lo + w) : ∃ s',
    Server.transferDataTest bufSize s = ⟨[dataBytes file bufSize n], .ok s'⟩ ∧
      Holding w bufSize file s'.win s'.input lo (n + 1) ∧ s'.seqNum = s.seqNum + 1 ∧
      s'.pc = .checkForRRs := by
  obtain ⟨s', hsend, hholding, hseq'⟩ := h.sendNextPdu_eq hs hseq hn hroom
  refine ⟨{ s' with seqNum := s'.seqNum + 1, pc := .checkForRRs }, ?_, hholding, ?_, rfl⟩
  · unfold Server.transferDataTest
    rw [h.feof, h.isWindowFull_eq, decide_eq_false (by omega), if_neg Bool.false_ne_true,
      Emit.liftM_eq, Emit.bind_silent, decide_eq_false hroom, if_neg Bool.false_ne_true, hsend,
      Emit.bind_ok]
    rfl
  · simp only [hseq']

/-- The three ways on from the head of `transferData`'s loop. -/
theorem transferDataTest_cases (h : Holding w bufSize file s.win s.input lo n)
    (hp : Params w bufSize file) (hseq : s.seqNum.toNat = n) :
    (n = packets file bufSize ∧ Server.transferDataTest bufSize s = Server.waitOnRRsTest s) ∨
      (n < packets file bufSize ∧ n = lo + w ∧
        Server.transferDataTest bufSize s = ⟨[], .ok { s with pc := .checkForRRs }⟩) ∨
      (n < packets file bufSize ∧ n ≠ lo + w ∧ ∃ s',
        Server.transferDataTest bufSize s = ⟨[dataBytes file bufSize n], .ok s'⟩ ∧
          Serves w bufSize file s' lo (n + 1) ∧ s'.pc = .checkForRRs) := by
  have hfew := hp.few
  rcases Nat.lt_or_eq_of_le h.le with hlt | heq
  · by_cases hfull : n = lo + w
    · refine .inr (.inl ⟨hlt, hfull, ?_⟩)
      unfold Server.transferDataTest
      rw [h.feof, h.isWindowFull_eq, decide_eq_false (by omega), if_neg Bool.false_ne_true,
        Emit.liftM_eq, Emit.bind_silent, decide_eq_true hfull, if_pos rfl]
      rfl
    · obtain ⟨s', hsend, hholding, hseq', hpc⟩ :=
        transferDataTest_sends h hp.sendable hseq hlt hfull
      refine .inr (.inr ⟨hlt, hfull, s', hsend, ⟨hholding, ?_⟩, hpc⟩)
      rw [hpc, hseq']
      refine ⟨by omega, ?_⟩
      simp only [UInt32.toNat_add, hseq, UInt32.toNat_one]
      omega
  · exact .inl ⟨heq, transferDataTest_of_feof h heq⟩

theorem transferDataTest_goes (h : Holding w bufSize file s.win s.input lo n)
    (hp : Params w bufSize file) (hseq : s.seqNum.toNat = n) (hpos : 0 < n) :
    Goes w bufSize file lo n f (Server.transferDataTest bufSize s) ∧
      ∃ s', (Server.transferDataTest bufSize s).result = .ok s' := by
  rcases transferDataTest_cases h hp hseq with ⟨hn, heq⟩ | ⟨_, _, heq⟩ | ⟨_, _, s', heq, hs', _⟩
  · rw [heq]
    exact waitOnRRsTest_goes h hseq hn
  · rw [heq]
    exact ⟨goes_still ⟨h, hpos, hseq⟩, _, rfl⟩
  · rw [heq]
    refine ⟨.waits hs' (Nat.le_refl _) (Nat.le_succ n) (.inl rfl)
      (sends_singleton (.data (Nat.lt_succ_self n))) ?_, _, rfl⟩
    intro k hk hk'
    obtain rfl : k = n := by omega
    exact List.mem_singleton_self _

theorem transferDataRest_eq (h : Holding w bufSize file s.win s.input lo n) :
    Server.transferDataRest bufSize s =
      if n = lo + w then ⟨[], .ok { s with pc := .openWindow 0 .transferData }⟩
      else Server.transferDataTest bufSize s := by
  unfold Server.transferDataRest
  rw [h.isWindowFull_eq, Emit.liftM_eq, Emit.bind_silent]
  simp only [decide_eq_true_eq]
  rfl

theorem transferDataRest_goes (h : Holding w bufSize file s.win s.input lo n)
    (hp : Params w bufSize file) (hseq : s.seqNum.toNat = n) (hpos : 0 < n) :
    Goes w bufSize file lo n f (Server.transferDataRest bufSize s) := by
  rw [transferDataRest_eq h]
  by_cases hfull : n = lo + w
  · have hw := hp.window_pos
    rw [if_pos hfull]
    exact goes_still ⟨h, Nat.zero_le 9, by omega, hseq, fun hcaller => by cases hcaller⟩
  · rw [if_neg hfull]
    exact (transferDataTest_goes h hp hseq hpos).1

theorem transferDataRest_advances (h : Holding w bufSize file s.win s.input lo n)
    (hp : Params w bufSize file) (hseq : s.seqNum.toNat = n) : ∃ out s' n',
    Server.transferDataRest bufSize s = ⟨out, .ok s'⟩ ∧ Serves w bufSize file s' lo n' ∧ n ≤ n' ∧
      (∀ d ∈ out, ServerSends bufSize file lo n' d) ∧
      (∀ k, n ≤ k → k < n' → dataBytes file bufSize k ∈ out) ∧
      (n < n' ∨ s'.pc ≠ .checkForRRs) := by
  have hw := hp.window_pos
  have hle := h.lo_le
  rw [transferDataRest_eq h]
  by_cases hfull : n = lo + w
  · rw [if_pos hfull]
    exact ⟨[], _, n, rfl, ⟨h, Nat.zero_le 9, by omega, hseq, fun hcaller => by cases hcaller⟩,
      Nat.le_refl n, (fun d hd => by cases hd), (fun k hk hk' => by omega), .inr (by simp)⟩
  · rw [if_neg hfull]
    rcases transferDataTest_cases h hp hseq with ⟨hn, heq⟩ | ⟨_, hfull', _⟩ | ⟨_, _, s', heq, hs', _⟩
    · rw [heq, waitOnRRsTest_eq h]
      split_ifs with hempty
      · exact ⟨_, _, n, rfl, ⟨h, Nat.zero_le 9, rfl, by decide +kernel, hempty, hn⟩, Nat.le_refl n,
          sends_singleton (.eof _ hempty hn), (fun k hk hk' => by omega), .inr (by simp)⟩
      · exact ⟨[], _, n, rfl, ⟨h, Nat.zero_le 9, by omega, hseq, fun _ => hn⟩, Nat.le_refl n,
          (fun d hd => by cases hd), (fun k hk hk' => by omega), .inr (by simp)⟩
    · exact absurd hfull' hfull
    · refine ⟨_, s', n + 1, heq, hs', Nat.le_succ n, sends_singleton (.data (Nat.lt_succ_self n)),
        ?_, .inl (Nat.lt_succ_self n)⟩
      intro k hk hk'
      obtain rfl : k = n := by omega
      exact List.mem_singleton_self _

theorem openWindowReturn_goes (h : Holding w bufSize file s.win s.input lo n)
    (hp : Params w bufSize file) (hseq : s.seqNum.toNat = n) (hpos : 0 < n) {caller : Caller}
    (hcaller : caller = .waitOnRRs → n = packets file bufSize) :
    Goes w bufSize file lo n f (Server.openWindowReturn bufSize s caller) ∧
      ∃ s', (Server.openWindowReturn bufSize s caller).result = .ok s' := by
  cases caller with
  | transferData => exact transferDataTest_goes h hp hseq hpos
  | waitOnRRs => exact waitOnRRsTest_goes h hseq (hcaller rfl)

theorem handleSrej_cases (h : Holding w bufSize file s.win s.input lo n)
    (hp : Params w bufSize file) (hpos : 0 < n) {packet : PduS} {seqNum : UInt32}
    (hread : readSeq packet.payload = .ok seqNum) :
    (lo = n ∧ s.handleSrej packet = ⟨[], .error .nullDeref⟩) ∨
      (lo < n ∧ s.handleSrej packet = ⟨[], .ok s⟩) ∨
      (lo < n ∧ ∃ k, k < n ∧ s.handleSrej packet = ⟨[dataBytes file bufSize k], .ok s⟩) := by
  unfold Server.handleSrej
  rw [hread, Emit.liftM_eq, Emit.bind_silent]
  rcases h.srej_cases hp hpos seqNum with ⟨heq, hsrej⟩ | ⟨hlt, hsrej⟩ | ⟨hlt, k, hk, hsrej⟩
  · rw [hsrej, Emit.liftM_eq, Emit.bind_error]
    exact .inl ⟨heq, rfl⟩
  · rw [hsrej, Emit.liftM_eq, Emit.bind_silent]
    exact .inr (.inl ⟨hlt, rfl⟩)
  · rw [hsrej, Emit.liftM_eq, Emit.bind_silent]
    dsimp only
    rw [recreatePDUS_dataPacket, hp.sendable.shortPdu_dataBytes]
    exact .inr (.inr ⟨hlt, k, hk, rfl⟩)

theorem handleSrej_goes (h : Serves w bufSize file s lo n) (hp : Params w bufSize file)
    (hpos : 0 < n) {packet : PduS} {seqNum : UInt32}
    (hread : readSeq packet.payload = .ok seqNum) :
    Goes w bufSize file lo n f (s.handleSrej packet) := by
  rcases handleSrej_cases h.holding hp hpos hread with ⟨_, heq⟩ | ⟨_, heq⟩ | ⟨_, k, hk, heq⟩
  · rw [heq]
    exact .stops (fun d hd => by cases hd)
  · rw [heq]
    exact goes_still h
  · rw [heq]
    exact goes_same h (sends_singleton (.data hk))

theorem resendLowest_eq (h : Holding w bufSize file s.win s.input lo n) (hlt : lo < n) :
    s.resendLowest = ⟨[dataBytes file bufSize lo], .ok s⟩ := by
  unfold Server.resendLowest
  rw [h.getLow_eq hlt, Emit.liftM_eq, Emit.bind_silent]
  rfl

/-- A timeout in `openWindow` sends the lowest packet again. -/
theorem openWindowTimeout_eq (h : Holding w bufSize file s.win s.input lo n) (hlt : lo < n)
    (count : ℕ) (caller : Caller) : Server.openWindowTimeout count caller s =
      ⟨[dataBytes file bufSize lo],
        if count + 1 < 10 then .ok { s with pc := .openWindow (count + 1) caller }
        else .error .exit⟩ := by
  unfold Server.openWindowTimeout
  rw [resendLowest_eq h hlt, Emit.bind_ok]
  split_ifs
  · rfl
  · rfl

/-- An RR that reaches the child is not above `f`. -/
def Understood (bufSize : UInt16) (f : ℕ) (pc : ServerPc) : Poll → Prop
  | .timeout => True
  | .datagram bytes => ∃ received, interpPDU (bytes.take (Server.recvLen bufSize pc)) =
      .ok received ∧ ∀ packet, received = some packet →
        (pc = .checkForRRs ∨ ∃ count caller, pc = .openWindow count caller) →
        packet.flag = RR_FLAG ∨ packet.flag = SREJ_FLAG →
        ∃ k, readSeq packet.payload = .ok k ∧ (packet.flag = RR_FLAG → k.toNat ≤ f)

theorem checkForRRsRecv_goes (h : Serves w bufSize file s lo n) (hp : Params w bufSize file)
    (hpc : s.pc = .checkForRRs) {bytes : List UInt8}
    (hin : Understood bufSize f .checkForRRs (.datagram bytes)) :
    Goes w bufSize file lo n f
      (s.checkForRRsRecv (bytes.take (Server.recvLen bufSize .checkForRRs))) := by
  obtain ⟨received, hinterp, hnumber⟩ := hin
  have hplace := h.place
  rw [hpc] at hplace
  unfold Server.checkForRRsRecv
  rw [hinterp, Emit.liftM_eq, Emit.bind_silent]
  cases received with
  | none => exact goes_still h
  | some packet =>
      dsimp only
      by_cases hrr : packet.flag = RR_FLAG
      · obtain ⟨seqNum, hread, hle⟩ := hnumber packet rfl (.inl rfl) (.inl hrr)
        rw [if_pos hrr, hread, Emit.liftM_eq, Emit.bind_silent]
        rcases h.holding.recvRR_cases hp hplace.1 seqNum with
          ⟨_, hrecv⟩ | ⟨_, _, ret, hrecv⟩ | ⟨_, hge, _, win', hrecv, hholding⟩
        · rw [hrecv, Emit.liftM_eq, Emit.bind_error]
          exact .stops (fun d hd => by cases hd)
        · rw [hrecv, Emit.liftM_eq, Emit.bind_silent]
          exact goes_still h
        · rw [hrecv, Emit.liftM_eq, Emit.bind_silent]
          have hserves : Serves w bufSize file { s with win := win' } seqNum.toNat n := by
            refine ⟨hholding, ?_⟩
            simp only [hpc]
            exact hplace
          exact .waits hserves hge (Nat.le_refl _) (.inr (hle hrr)) (fun d hd => by cases hd)
            (fun k hk hk' => by omega)
      · rw [if_neg hrr]
        by_cases hsrej : packet.flag = SREJ_FLAG
        · obtain ⟨seqNum, hread, _⟩ := hnumber packet rfl (.inl rfl) (.inr hsrej)
          rw [if_pos hsrej]
          exact handleSrej_goes h hp hplace.1 hread
        · rw [if_neg hsrej]
          exact goes_still h

theorem openWindowRecv_goes (h : Serves w bufSize file s lo n) (hp : Params w bufSize file)
    {count : ℕ} {caller : Caller} (hpc : s.pc = .openWindow count caller) {bytes : List UInt8}
    (hin : Understood bufSize f (.openWindow count caller) (.datagram bytes)) :
    Goes w bufSize file lo n f (Server.openWindowRecv bufSize caller s
      (bytes.take (Server.recvLen bufSize (.openWindow count caller)))) := by
  obtain ⟨received, hinterp, hnumber⟩ := hin
  have hplace := h.place
  rw [hpc] at hplace
  obtain ⟨_, hlt, hseq, hcaller⟩ := hplace
  unfold Server.openWindowRecv
  rw [hinterp, Emit.liftM_eq, Emit.bind_silent]
  cases received with
  | none => exact goes_still h
  | some packet =>
      dsimp only
      by_cases hsrej : packet.flag = SREJ_FLAG
      · obtain ⟨seqNum, hread, _⟩ := hnumber packet rfl (.inr ⟨_, _, rfl⟩) (.inr hsrej)
        rw [if_pos hsrej]
        exact handleSrej_goes h hp (by omega) hread
      · rw [if_neg hsrej]
        by_cases hrr : packet.flag = RR_FLAG
        · obtain ⟨seqNum, hread, hle⟩ := hnumber packet rfl (.inr ⟨_, _, rfl⟩) (.inl hrr)
          rw [if_pos hrr, hread, Emit.liftM_eq, Emit.bind_silent]
          rcases h.holding.recvRR_cases hp (by omega) seqNum with
            ⟨heq, _⟩ | ⟨_, _, ret, hrecv⟩ | ⟨_, hge, _, win', hrecv, hholding⟩
          · omega
          · rw [hrecv, Emit.liftM_eq, Emit.bind_silent]
            exact (openWindowReturn_goes (s := { s with win := s.win }) h.holding hp hseq
              (by omega) hcaller).1
          · rw [hrecv, Emit.liftM_eq, Emit.bind_silent]
            obtain ⟨hgoes, hok⟩ := openWindowReturn_goes (f := f) (s := { s with win := win' })
              hholding hp hseq (by omega) hcaller
            exact hgoes.of_le hok hge (hle hrr)
        · rw [if_neg hrr]
          exact goes_still h

theorem processEofTest_waits {count : ℕ} {flag : UInt8} {respBuf : List UInt8} (hcount : count < 10)
    (hflag : flag = 255) (hread : interpPDU respBuf = .ok none) :
    Server.processEofTest count flag respBuf s =
      ⟨[], .ok { s with pc := .processEof count flag respBuf }⟩ := by
  unfold Server.processEofTest
  rw [if_pos hcount, hread, Emit.liftM_eq, Emit.bind_silent]
  dsimp only
  rw [if_pos (by subst hflag; decide)]
  rfl

theorem processEofTest_goes (h : Holding w bufSize file s.win s.input lo n) {count : ℕ}
    {flag : UInt8} {respBuf : List UInt8} (hflag : flag = 255)
    (hread : ∃ received, interpPDU respBuf = .ok received) (hlo : lo = n)
    (hn : n = packets file bufSize) :
    Goes w bufSize file lo n f (Server.processEofTest count flag respBuf s) := by
  obtain ⟨received, hinterp⟩ := hread
  by_cases hlt : count < 10
  · cases received with
    | none =>
        rw [processEofTest_waits hlt hflag hinterp]
        exact goes_still ⟨h, by omega, hflag, hinterp, hlo, hn⟩
    | some packet =>
        rw [Server.processEofTest, if_pos hlt, hinterp, Emit.liftM_eq, Emit.bind_silent]
        exact goes_still ⟨h, hlo, hn⟩
  · rw [Server.processEofTest, if_neg hlt]
    exact .stops (fun d hd => by cases hd)

theorem sendEof_eq : s.sendEof = ⟨[createPdu s.seqNum EOF_FLAG []],
    .ok { s with seqNum := s.seqNum + 1 }⟩ := by
  unfold Server.sendEof
  simp only [Emit.emit_eq, Emit.bind_ok, Emit.pure_eq, List.append_nil]

/-- A timeout in `processEof` sends the EOF again. -/
theorem processEofTimeout_eq (count : ℕ) (flag : UInt8) (respBuf : List UInt8) :
    Server.processEofTimeout count flag respBuf s =
      ⟨createPdu s.seqNum EOF_FLAG [] ::
        (Server.processEofTest (count + 1) flag respBuf
          { s with seqNum := s.seqNum + 1 }).out,
        (Server.processEofTest (count + 1) flag respBuf
          { s with seqNum := s.seqNum + 1 }).result⟩ := by
  unfold Server.processEofTimeout
  simp only [sendEof_eq, Emit.bind_ok, List.singleton_append]

theorem Goes.cons {p : ServerProc Server} (h : Goes w bufSize file lo n f p) {d : List UInt8}
    (hd : ∀ lo' n', lo ≤ lo' → n ≤ n' → n' ≤ packets file bufSize → lo' ≤ n' →
      ServerSends bufSize file lo' n' d) (hle : n ≤ packets file bufSize) (hlo : lo ≤ n) :
    Goes w bufSize file lo n f ⟨d :: p.out, p.result⟩ := by
  cases h with
  | stops hout =>
      refine .stops fun c hc => ?_
      rcases List.mem_cons.mp hc with rfl | hc
      · exact hd lo n (Nat.le_refl _) (Nat.le_refl _) hle hlo
      · exact hout c hc
  | waits hserves hlo' hn hrr hout hsent =>
      refine .waits hserves hlo' hn hrr (fun c hc => ?_)
        (fun k hk hk' => List.mem_cons_of_mem d (hsent k hk hk'))
      rcases List.mem_cons.mp hc with rfl | hc
      · exact hd _ _ hlo' hn hserves.holding.le hserves.holding.lo_le
      · exact hout c hc

theorem openWindowTimeout_goes (h : Holding w bufSize file s.win s.input lo n) (hlt : lo < n)
    (hseq : s.seqNum.toNat = n) {count : ℕ} {caller : Caller}
    (hcaller : caller = .waitOnRRs → n = packets file bufSize) :
    Goes w bufSize file lo n f (Server.openWindowTimeout count caller s) := by
  rw [openWindowTimeout_eq h hlt]
  split_ifs
  · exact goes_same ⟨h, by omega, hlt, hseq, hcaller⟩ (sends_singleton (.data hlt))
  · exact .stops (sends_singleton (.data hlt))

theorem processEofTimeout_goes (h : Holding w bufSize file s.win s.input lo n) {count : ℕ}
    {flag : UInt8} {respBuf : List UInt8} (hflag : flag = 255)
    (hread : ∃ received, interpPDU respBuf = .ok received) (hlo : lo = n)
    (hn : n = packets file bufSize) :
    Goes w bufSize file lo n f (Server.processEofTimeout count flag respBuf s) := by
  rw [processEofTimeout_eq]
  have hgoes : Goes w bufSize file lo n f (Server.processEofTest (count + 1) flag respBuf
      { s with seqNum := s.seqNum + 1 }) :=
    processEofTest_goes (s := { s with seqNum := s.seqNum + 1 }) h hflag hread hlo hn
  refine hgoes.cons ?_ (by omega) (by omega)
  intro lo' n' hlo' hn' hle hle'
  exact .eof _ (by omega) (by omega)

/-- Wherever the child waits, a step leads to a place where it waits again or
stops it; it sends packets of the file below `n`, and the EOF only when all of
them are acknowledged. -/
theorem Serves.step_goes (h : Serves w bufSize file s lo n) (hp : Params w bufSize file)
    {poll : Poll} (hin : Understood bufSize f s.pc poll) :
    Goes w bufSize file lo n f (s.step bufSize poll) := by
  have hplace := h.place
  cases hpc : s.pc with
  | checkForRRs =>
      rw [hpc] at hplace hin
      cases poll with
      | timeout =>
          rw [(Server.step_checkForRRs hpc).1]
          exact transferDataRest_goes h.holding hp hplace.2 hplace.1
      | datagram bytes =>
          rw [(Server.step_checkForRRs hpc).2]
          exact checkForRRsRecv_goes h hp hpc hin
  | openWindow count caller =>
      rw [hpc] at hplace hin
      obtain ⟨hcount, hlt, hseq, hcaller⟩ := hplace
      cases poll with
      | timeout =>
          rw [(Server.step_openWindow hpc).1]
          exact openWindowTimeout_goes h.holding hlt hseq hcaller
      | datagram bytes =>
          rw [(Server.step_openWindow hpc).2]
          exact openWindowRecv_goes h hp hpc hin
  | processEof count flag respBuf =>
      rw [hpc] at hplace hin
      obtain ⟨hcount, hflag, hreject, hlo, hn⟩ := hplace
      cases poll with
      | timeout =>
          rw [(Server.step_processEof hpc).1]
          exact processEofTimeout_goes h.holding hflag ⟨_, hreject⟩ hlo hn
      | datagram bytes =>
          obtain ⟨received, hinterp, _⟩ := hin
          rw [(Server.step_processEof hpc).2]
          exact processEofTest_goes h.holding hflag ⟨_, hinterp⟩ hlo hn
  | returned =>
      rw [Server.step_returned hpc]
      exact goes_still h

theorem holding_init (hpos : 0 < w) (hsmall : w < 2147483648) :
    Holding w bufSize file (initWindow noWindow w).2 ⟨file, false⟩ 0 0 := by
  have hcount : 0 < packets file bufSize := Nat.succ_pos _
  obtain ⟨hint, hup⟩ := interval_initWindow hpos hsmall
  refine ⟨hint, hup, Nat.zero_le _, ?_, ?_⟩
  · rw [Nat.zero_mul, List.drop_zero]
  · rw [decide_eq_false (by omega)]

theorem serves_init (hp : Params w bufSize file) : ∃ s',
    Server.init w bufSize file = ⟨[dataBytes file bufSize 0], .ok s'⟩ ∧
      Serves w bufSize file s' 0 1 ∧ s'.pc = .checkForRRs := by
  have hpos := hp.window_pos
  have hle := hp.window_le
  have hcount : 0 < packets file bufSize := Nat.succ_pos _
  have h : Holding w bufSize file (initWindow noWindow w).2 ⟨file, false⟩ 0 0 :=
    holding_init (by omega) (by omega)
  rcases transferDataTest_cases
    (s := ⟨(initWindow noWindow w).2, ⟨file, false⟩, 0, .checkForRRs⟩) h hp rfl with
    ⟨hn, _⟩ | ⟨_, hfull, _⟩ | ⟨_, _, hsend⟩
  · omega
  · omega
  · exact hsend

end
end SelRej

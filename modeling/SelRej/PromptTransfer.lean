import SelRej.ServerTransfer

/-!
# A transfer without losses

The child sends a file, and the RR for every packet arrives as soon as the
packet is sent: it is the only datagram that the next call of `checkForRRs`
receives. `promptRun` runs the child in this way. `Covers` says that it leaves
the loop of `transferData` after finitely many packets, each of which carries
its chunk, and that the chunks are the file.

Nothing restricts the buffer size of an INITIAL packet. A buffer of size 0 is
never filled, and a chunk of more than 65528 bytes does not leave room for the
header in the `uint16_t` that holds the length of its PDU. Moreover, the RRs
have to be within the range of `recvRR`, `AcksFit`. These are the only
exceptions.
-/
namespace SelRej
open CInt CircularArray Chunks

/-- `recvRR` handles the RRs for `n` packets: their numbers are `uint32_t`s, its
loop counter is an index of the array, and `upper` stays an `int`. -/
structure AcksFit (w n : ℕ) : Prop where
  number : n < 4294967296
  index : IndexSound w n
  upper : w ≤ 1073741824 ∨ n + w ≤ 2147483648

theorem AcksFit.mono {w m n : ℕ} (h : AcksFit w n) (hm : m ≤ n) : AcksFit w m := by
  have hnumber := h.number
  refine ⟨by omega, ?_, ?_⟩
  · rcases h.index with hone | hle | ⟨hlast, hdvd⟩
    · exact .inl hone
    · exact .inr (.inl (by omega))
    · rcases Nat.lt_or_eq_of_le hm with hlt | heq
      · exact .inr (.inl (by omega))
      · exact .inr (.inr ⟨by omega, hdvd⟩)
  · have hupper := h.upper
    omega

theorem acksFit_zero {w : ℕ} (hsmall : w < 2147483648) : AcksFit w 0 :=
  ⟨by decide, .inr (.inl (by decide)), .inr (by omega)⟩

section
variable {win : Window} {w k : ℕ} {sent : List PduS}

/-- The loop counter for packet `k` is its index. -/
theorem index_eq (hpos : 0 < w) (hk : k + 1 < 4294967296) (hindex : IndexSound w (k + 1)) :
    (i32 k).tmod w = ((k % w : ℕ) : ℤ) := by
  rcases hindex with rfl | hle | ⟨hlast, hdvd⟩
  · rw [Nat.mod_one]
    exact Int.tmod_one _
  · rw [i32_natCast (by omega), natCast_tmod]
  · obtain rfl : k = 2147483648 := by omega
    rw [hdvd, i32_natCast_of_le (by decide) (by decide)]
    have hneg : ((2147483648 : ℕ) : ℤ) - 4294967296 = -((2147483648 : ℕ) : ℤ) := by decide
    rw [hneg, Int.neg_tmod, natCast_tmod, hdvd]
    rfl

/-- The first sum of an index and `w` for which `upper` wraps. -/
theorem upper_neg {m : ℕ} (hpos : 0 < w) (hsmall : w < 2147483648)
    (hsum : m % w + w = 2147483649) :
    (i32 (i32 (((m % w : ℕ) : ℤ) + w) - 1)).tmod w < 0 := by
  have hmod : 2147483648 % w = 2147483648 - w := by
    have hlt := Nat.mod_lt m hpos
    rw [Nat.mod_eq_sub_mod (by omega), Nat.mod_eq_of_lt (by omega)]
  have hwrap : i32 (i32 (((m % w : ℕ) : ℤ) + w) - 1) = -((2147483648 : ℕ) : ℤ) := by
    rw [show ((m % w : ℕ) : ℤ) + w = 2147483649 by omega]
    decide
  rw [hwrap, Int.neg_tmod, natCast_tmod, hmod]
  omega

namespace Interval

theorem recvRR_last (h : Interval win w k sent) (hlen : sent.length = k + 1)
    (hk : k + 1 < 4294967296) (hindex : IndexSound w (k + 1)) : ∃ queue,
    recvRR win (UInt32.ofNat (k + 1)) = .ok (1, { win with
      queue := queue
      lower := (((k + 1) % w : ℕ) : ℤ)
      upper := (i32 (i32 ((((k + 1) % w : ℕ) : ℤ) + w) - 1)).tmod w }) ∧
      Holds queue w (k + 1) fun j => sent[j]? := by
  have hfits := h.fits
  have hnum : (UInt32.ofNat (k + 1)).toNat = k + 1 := UInt32.toNat_ofNat_of_lt' hk
  have hi : (i32 k).tmod win.winSize = ((k % w : ℕ) : ℤ) := by
    rw [h.winSize]
    exact index_eq h.pos hk hindex
  obtain ⟨queue, hfree, hqueue⟩ := freeSlots_step h.winSize h.slots (by omega) hfits hi 0
  refine ⟨queue, ?_, hqueue⟩
  rw [h.recvRR_eq (by omega) (by omega), hnum, if_neg (by omega), if_neg (by omega),
    Nat.add_sub_cancel_left, hfree, freeSlots, pure_eq_ok, ok_bind, h.winSize]

theorem recvRR_fits (h : Interval win w k sent) (hlen : sent.length = k + 1)
    (hfit : AcksFit w (k + 1)) : ∃ win', recvRR win (UInt32.ofNat (k + 1)) = .ok (1, win') ∧
      Interval win' w (k + 1) sent ∧ HasUpper win' w (k + 1) := by
  obtain ⟨queue, heq, hqueue⟩ := h.recvRR_last hlen hfit.number hfit.index
  have hsum : (k + 1) % w + w ≤ 2147483648 := by
    have hmod := Nat.mod_lt (k + 1) h.pos
    have hle := Nat.mod_le (k + 1) w
    rcases hfit.upper with hw | hk
    · omega
    · omega
  refine ⟨_, heq, h.moveLower (by omega) (by omega) hqueue
    ((i32 (i32 ((((k + 1) % w : ℕ) : ℤ) + w) - 1)).tmod w), ?_⟩
  rw [HasUpper, ← Window.tmod_last h.winSize h.pos hsum, h.winSize]

/-- The first RR out of range: its loop counter is negative, or `upper` is, or
its number is 0. -/
theorem recvRR_unfit (h : Interval win w k sent) (hlen : sent.length = k + 1)
    (hfit : AcksFit w k) (hunfit : ¬AcksFit w (k + 1)) :
    (∃ e, recvRR win (UInt32.ofNat (k + 1)) = .error e) ∨
      (∃ code win', recvRR win (UInt32.ofNat (k + 1)) = .ok (code, win') ∧ win'.upper < 0) ∨
      (w = 1 ∧ ∃ code, recvRR win (UInt32.ofNat (k + 1)) = .ok (code, win)) := by
  have hpos := h.pos
  have hsmall := h.small
  have hnumber := hfit.number
  rcases Nat.lt_or_ge (k + 1) 4294967296 with hlt | hge
  · rcases tmod_sound hpos hnumber hfit.index with hneg | ⟨_, hindex⟩
    · have hnum : (UInt32.ofNat (k + 1)).toNat = k + 1 := UInt32.toNat_ofNat_of_lt' hlt
      refine .inl ⟨.outOfBounds, ?_⟩
      rw [h.recvRR_eq (by omega) (by omega), hnum, if_neg (by omega), if_neg (by omega),
        Nat.add_sub_cancel_left, freeSlots, h.winSize, Window.deref_of_neg hneg, error_bind,
        error_bind]
    · obtain ⟨queue, heq, _⟩ := h.recvRR_last hlen hlt hindex
      refine .inr (.inl ⟨_, _, heq, ?_⟩)
      have hupper := hfit.upper
      have hnot : ¬(w ≤ 1073741824 ∨ k + 1 + w ≤ 2147483648) :=
        fun hupper' => hunfit ⟨hlt, hindex, hupper'⟩
      have hsum : (k + 1) % w + w = 2147483649 := by
        rw [Nat.mod_eq_of_lt (by omega)]
        omega
      dsimp only
      exact upper_neg hpos hsmall hsum
  · obtain rfl : k = 4294967295 := by omega
    have hw : w = 1 := by
      rcases hfit.index with hone | hle | ⟨hlast, _⟩
      · exact hone
      · omega
      · omega
    refine .inr (.inr ⟨hw, 1, ?_⟩)
    have hzero : (UInt32.ofNat (4294967295 + 1)).toNat = 0 := by decide
    rw [h.recvRR_eq (by omega) (by omega), hzero, if_neg (by omega), if_pos (by omega)]

end Interval
end

/-- rcopy's RR for everything sent so far. The child does not look at the number
of the RR's own PDU. -/
def ackBytes (s : Server) : List UInt8 := createPdu 0 RR_FLAG (htonl s.seqNum)

/-- `checkForRRs` receives the RR and then nothing; nothing else arrives. -/
def promptRound (bufSize : UInt16) (s : Server) : ServerProc Server :=
  if s.pc = .checkForRRs then do
    let s ← s.step bufSize (.datagram (ackBytes s))
    s.step bufSize .timeout
  else s.step bufSize .timeout

def promptRun (w : ℕ) (bufSize : UInt16) (file : List UInt8) : ℕ → ServerProc Server
  | 0 => Server.init w bufSize file
  | n + 1 => promptRun w bufSize file n >>= promptRound bufSize

/-- PDU `k` is decoded as the DATA packet number `k` with chunk `k`. -/
structure Carries (bufSize : UInt16) (file : List UInt8) (k : ℕ) (pduBuf : List UInt8)
    (packet : PduS) : Prop where
  length : pduBuf.length = 7 + (chunk file bufSize.toNat k).length
  read : interpPDU pduBuf = .ok (some packet)
  seqNum : packet.seqNum.toNat = k
  flag : packet.flag = DATA_FLAG
  payload : packet.payload = chunk file bufSize.toNat k

/-- After `n` packets the child has left the loop of `transferData` and sent the
EOF. Packet `k` was stored when it was sent, which is what round `k` leaves. -/
def Covers (w : ℕ) (bufSize : UInt16) (file : List UInt8) : Prop :=
  ∃ (n : ℕ) (pdus : List (List UInt8)) (eof : List UInt8) (s : Server),
    promptRun w bufSize file n = ⟨pdus ++ [eof], .ok s⟩ ∧ s.pc = .processEof 0 255 [] ∧
      pdus.length = n ∧
      (∀ (k : ℕ) (hk : k < pdus.length), ∃ packet s',
        Carries bufSize file k pdus[k] packet ∧ (promptRun w bufSize file k).result = .ok s' ∧
          s'.win.queue ((k % w : ℕ) : ℤ) = some packet) ∧
      (List.range n).flatMap (chunk file bufSize.toNat) = file

section
variable {w : ℕ} {bufSize : UInt16} {file : List UInt8} {s : Server} {k : ℕ}

theorem promptRound_eq (hpc : s.pc = .checkForRRs) : promptRound bufSize s =
    (liftM (recvRR s.win s.seqNum) >>= fun r =>
      Server.transferDataRest bufSize { s with win := r.2 } : ServerProc Server) := by
  have hread := interpPDU_take_of_le 0 RR_FLAG (show (htonl s.seqNum).length ≤ 65528 by simp)
    (show 7 + (htonl s.seqNum).length ≤ Server.recvLen bufSize .checkForRRs by
      rw [htonl_length, Server.recvLen, HEADER_LEN]
      omega)
  have hrecv : s.step bufSize (.datagram (ackBytes s)) =
      (liftM (recvRR s.win s.seqNum) >>= fun r =>
        pure { s with win := r.2 } : ServerProc Server) := by
    rw [(Server.step_checkForRRs hpc).2]
    unfold Server.checkForRRsRecv
    rw [ackBytes, hread, Emit.liftM_eq, Emit.bind_silent]
    dsimp only [decoded]
    rw [if_pos rfl, readSeq_htonl, Emit.liftM_eq, Emit.bind_silent]
  rw [promptRound, if_pos hpc, hrecv, Emit.liftM_eq]
  cases recvRR s.win s.seqNum with
  | error e =>
      rw [Emit.bind_error, Emit.bind_error, Emit.bind_error]
  | ok r =>
      have hpc' : ({ s with win := r.2 } : Server).pc = .checkForRRs := hpc
      rw [Emit.bind_silent, Emit.pure_eq, Emit.bind_silent, Emit.bind_silent,
        (Server.step_checkForRRs hpc').1]

structure Prompt (w : ℕ) (bufSize : UInt16) (file : List UInt8) (s : Server) (k : ℕ) : Prop where
  holding : Holding w bufSize file s.win s.input k (k + 1)
  seqNum : s.seqNum = UInt32.ofNat (k + 1)
  pc : s.pc = .checkForRRs

theorem ofNat_succ (k : ℕ) : UInt32.ofNat k + 1 = UInt32.ofNat (k + 1) := by
  rw [UInt32.ofNat_add]
  rfl

theorem prompt_init (hs : Sendable bufSize file) (hpos : 0 < w) (hsmall : w < 2147483648) :
    ∃ s', Server.init w bufSize file = ⟨[dataBytes file bufSize 0], .ok s'⟩ ∧
      Prompt w bufSize file s' 0 := by
  obtain ⟨s', hsend, hholding, hseq, hpc⟩ := transferDataTest_sends
    (s := ⟨(initWindow noWindow w).2, ⟨file, false⟩, 0, .checkForRRs⟩)
    (holding_init hpos hsmall) hs rfl (Nat.succ_pos _) (by omega)
  exact ⟨s', hsend, hholding, hseq, hpc⟩

theorem Prompt.round_eq (h : Prompt w bufSize file s k) (hfit : AcksFit w (k + 1)) :
    ∃ win', promptRound bufSize s = Server.transferDataTest bufSize { s with win := win' } ∧
      Holding w bufSize file win' s.input (k + 1) (k + 1) := by
  have hpos := h.holding.interval.pos
  obtain ⟨win', hrecv, hint, hup⟩ :=
    h.holding.interval.recvRR_fits (sentPackets_length file bufSize (k + 1)) hfit
  have hholding : Holding w bufSize file win' s.input (k + 1) (k + 1) :=
    ⟨hint, hup, h.holding.le, h.holding.rest, h.holding.feof⟩
  rw [← h.seqNum] at hrecv
  refine ⟨win', ?_, hholding⟩
  rw [promptRound_eq h.pc, hrecv, Emit.liftM_eq, Emit.bind_silent]
  dsimp only
  rw [transferDataRest_eq (s := { s with win := win' }) hholding, if_neg (by omega)]

theorem Prompt.round_sends (h : Prompt w bufSize file s k) (hs : Sendable bufSize file)
    (hfit : AcksFit w (k + 1)) (hk : k + 1 < packets file bufSize) : ∃ s',
    promptRound bufSize s = ⟨[dataBytes file bufSize (k + 1)], .ok s'⟩ ∧
      Prompt w bufSize file s' (k + 1) := by
  have hpos := h.holding.interval.pos
  have hnum : s.seqNum.toNat = k + 1 := by
    rw [h.seqNum]
    exact UInt32.toNat_ofNat_of_lt' hfit.number
  obtain ⟨win', hround, hholding⟩ := h.round_eq hfit
  obtain ⟨s', hsend, hholding', hseq, hpc⟩ := transferDataTest_sends
    (s := { s with win := win' }) hholding hs hnum hk (by omega)
  refine ⟨s', hround.trans hsend, hholding', ?_, hpc⟩
  rw [hseq]
  simp only [h.seqNum, ofNat_succ]

theorem Prompt.round_ends (h : Prompt w bufSize file s k) (hfit : AcksFit w (k + 1))
    (hk : k + 1 = packets file bufSize) : ∃ s',
    promptRound bufSize s = ⟨[createPdu s.seqNum EOF_FLAG []], .ok s'⟩ ∧
      s'.pc = .processEof 0 255 [] := by
  obtain ⟨win', hround, hholding⟩ := h.round_eq hfit
  refine ⟨{ s with win := win', seqNum := s.seqNum + 1, pc := .processEof 0 255 [] }, ?_, rfl⟩
  rw [hround, transferDataTest_of_feof hholding hk, waitOnRRsTest_eq hholding, if_pos rfl]

/-- The window of `transferData` has not opened. -/
def Blocked (s : Server) : Prop := ∃ count, s.pc = .openWindow count .transferData

theorem openWindowTimeout_ends (count : ℕ) (caller : Caller) (s : Server) :
    (Server.openWindowTimeout count caller s).Ends fun s' =>
      s'.pc = .openWindow (count + 1) caller ∧ s'.input = s.input := by
  have hlow : (Server.resendLowest s).Ends fun s' => s'.input = s.input := by
    unfold Server.resendLowest
    apply Emit.ends_lift
    intro answer _
    cases answer with
    | none => exact Emit.ends_pure rfl
    | some packet => exact Emit.ends_emit (Emit.ends_pure rfl)
  unfold Server.openWindowTimeout
  refine hlow.bind fun s' hs' => ?_
  split_ifs
  · exact Emit.ends_pure ⟨rfl, hs'⟩
  · exact Emit.ends_halt

theorem promptRound_openWindow {count : ℕ} {caller : Caller}
    (hpc : s.pc = .openWindow count caller) :
    promptRound bufSize s = Server.openWindowTimeout count caller s := by
  rw [promptRound, if_neg (by rw [hpc]; simp), (Server.step_openWindow hpc).1]

theorem Blocked.round (h : Blocked s) : (promptRound bufSize s).Ends Blocked := by
  obtain ⟨count, hpc⟩ := h
  rw [promptRound_openWindow hpc]
  exact (openWindowTimeout_ends count .transferData s).mono fun _ hs' => ⟨_, hs'.1⟩

/-- The first RR out of range ends the transfer. -/
theorem Prompt.round_blocked (h : Prompt w bufSize file s k) (hfit : AcksFit w k)
    (hunfit : ¬AcksFit w (k + 1)) : (promptRound bufSize s).Ends Blocked := by
  have hcases :=
    h.holding.interval.recvRR_unfit (sentPackets_length file bufSize (k + 1)) hfit hunfit
  rw [← h.seqNum] at hcases
  rw [promptRound_eq h.pc]
  rcases hcases with ⟨e, hrecv⟩ | ⟨code, win', hrecv, hneg⟩ | ⟨hw, code, hrecv⟩
  · rw [hrecv, Emit.liftM_eq, Emit.bind_error]
    exact Emit.ends_error
  · have hfull : isWindowFull win' = .error .outOfBounds := by
      rw [isWindowFull, Window.slot_of_neg hneg, error_bind]
    rw [hrecv, Emit.liftM_eq, Emit.bind_silent]
    unfold Server.transferDataRest
    rw [hfull, Emit.liftM_eq, Emit.bind_error]
    exact Emit.ends_error
  · subst hw
    rw [hrecv, Emit.liftM_eq, Emit.bind_silent]
    dsimp only
    rw [transferDataRest_eq h.holding, if_pos rfl]
    exact Emit.ends_ok ⟨0, rfl⟩

/-- The file has not ended, and the child is in the loop of `transferData`. -/
def Endless (s : Server) : Prop := s.input.feof = false ∧ (s.pc = .checkForRRs ∨ Blocked s)

theorem transferDataTest_ends (hfeof : s.input.feof = false) :
    (Server.transferDataTest bufSize s).Ends fun s' =>
      s'.pc = .checkForRRs ∧ (bufSize.toNat = 0 → s'.input.feof = false) := by
  unfold Server.transferDataTest
  rw [hfeof, if_neg Bool.false_ne_true]
  apply Emit.ends_lift
  intro full _
  split_ifs
  · exact Emit.ends_pure ⟨rfl, fun _ => hfeof⟩
  have hsend : (Server.sendNextPdu bufSize s).Ends fun s' =>
      bufSize.toNat = 0 → s'.input.feof = false := by
    unfold Server.sendNextPdu Server.getNextData
    apply ends_sendtoErr
    apply Emit.ends_lift
    intro answer _
    cases answer with
    | none => exact Emit.ends_halt
    | some sent =>
        apply Emit.ends_lift
        intro r _
        refine Emit.ends_pure fun hzero => ?_
        simp only [hfeof, hzero, Bool.false_or, Nat.not_lt_zero, decide_false]
  exact hsend.bind fun s' hs' => Emit.ends_pure ⟨rfl, hs'⟩

theorem Endless.round (hzero : bufSize.toNat = 0) (h : Endless s) :
    (promptRound bufSize s).Ends Endless := by
  obtain ⟨hfeof, hpc | ⟨count, hpc⟩⟩ := h
  · rw [promptRound_eq hpc]
    apply Emit.ends_lift
    intro r _
    unfold Server.transferDataRest
    apply Emit.ends_lift
    intro full _
    split_ifs
    · exact Emit.ends_pure ⟨hfeof, .inr ⟨0, rfl⟩⟩
    · exact (transferDataTest_ends (s := { s with win := r.2 }) hfeof).mono fun _ hs' =>
        ⟨hs'.2 hzero, .inl hs'.1⟩
  · rw [promptRound_openWindow hpc]
    refine (openWindowTimeout_ends count .transferData s).mono fun s' hs' => ?_
    exact ⟨by rw [hs'.2, hfeof], .inr ⟨_, hs'.1⟩⟩

theorem promptRun_prompt (hs : Sendable bufSize file) (hpos : 0 < w) (hsmall : w < 2147483648)
    (hk : k < packets file bufSize) (hfit : AcksFit w k) : ∃ s',
    promptRun w bufSize file k = ⟨(List.range (k + 1)).map (dataBytes file bufSize), .ok s'⟩ ∧
      Prompt w bufSize file s' k := by
  induction k with
  | zero => exact prompt_init hs hpos hsmall
  | succ k ih =>
      obtain ⟨s₁, hrun, hprompt⟩ := ih (by omega) (hfit.mono (Nat.le_succ k))
      obtain ⟨s', hround, hprompt'⟩ := hprompt.round_sends hs hfit hk
      refine ⟨s', ?_, hprompt'⟩
      rw [promptRun, hrun, Emit.bind_ok, hround, List.range_succ (n := k + 1), List.map_append]
      rfl

theorem carries_dataBytes (hs : Sendable bufSize file) (hk : k < 4294967296) :
    Carries bufSize file k (dataBytes file bufSize k) (dataPacket file bufSize k) where
  length := createPdu_length ..
  read := hs.interpPDU_dataBytes k
  seqNum := seqNum_dataPacket hk
  flag := rfl
  payload := rfl

theorem covers_of_fit (hs : Sendable bufSize file) (hpos : 0 < w) (hsmall : w < 2147483648)
    (hfit : AcksFit w (packets file bufSize)) : Covers w bufSize file := by
  have hnumber := hfit.number
  obtain ⟨s₁, hrun, hprompt⟩ := promptRun_prompt hs hpos hsmall
    (show file.length / bufSize.toNat < packets file bufSize from Nat.lt_succ_self _)
    (hfit.mono (Nat.le_succ _))
  obtain ⟨s', hround, hpc⟩ := hprompt.round_ends hfit rfl
  refine ⟨packets file bufSize, (List.range (packets file bufSize)).map (dataBytes file bufSize),
    createPdu s₁.seqNum EOF_FLAG [], s', ?_, hpc, ?_, ?_, ?_⟩
  · rw [packets, count, promptRun, hrun, Emit.bind_ok, hround]
  · rw [List.length_map, List.length_range]
  · intro k hk
    rw [List.length_map, List.length_range] at hk
    obtain ⟨s₂, hrun₂, hprompt₂⟩ := promptRun_prompt hs hpos hsmall hk (hfit.mono (by omega))
    refine ⟨dataPacket file bufSize k, s₂, ?_, by rw [hrun₂], ?_⟩
    · rw [List.getElem_map, List.getElem_range]
      exact carries_dataBytes hs (by omega)
    · have hlen : k < (sentPackets file bufSize (k + 1)).length := by
        rw [sentPackets_length]
        exact Nat.lt_succ_self k
      rw [hprompt₂.holding.interval.queue_eq (Nat.le_refl k) (by omega),
        List.getElem?_eq_getElem hlen, sentPackets_getElem]
  · rw [flatMap_chunk]
    exact take_count file bufSize.toNat hs.buf_pos

theorem sendNextPdu_out {s s' : Server} {out : List (List UInt8)}
    (h : Server.sendNextPdu bufSize s = ⟨out, .ok s'⟩) : ∃ rest,
    out = shortPdu (createPdu s.seqNum DATA_FLAG (s.input.rest.take bufSize.toNat)) :: rest := by
  unfold Server.sendNextPdu Server.getNextData Input.fread at h
  dsimp only at h
  obtain ⟨out₁, _, rest, hsend, rfl⟩ := Emit.exists_of_bind_ok h
  refine ⟨rest, ?_⟩
  unfold sendtoErr at hsend
  split_ifs at hsend
  · cases hsend
  · cases hsend
    rfl

theorem promptRun_out (hpos : 0 < w) (hsmall : w < 2147483648) {n : ℕ} {out : List (List UInt8)}
    {s' : Server} (h : promptRun w bufSize file n = ⟨out, .ok s'⟩) :
    ∃ rest, out = shortPdu (createPdu 0 DATA_FLAG (chunk file bufSize.toNat 0)) :: rest := by
  induction n generalizing out s' with
  | zero =>
      have hinit : Holding w bufSize file (initWindow noWindow w).2 ⟨file, false⟩ 0 0 :=
        holding_init hpos hsmall
      have hfull := hinit.isWindowFull_eq
      rw [decide_eq_false (by omega)] at hfull
      rw [promptRun, Server.init, Server.transferDataTest, if_neg Bool.false_ne_true, hfull,
        Emit.liftM_eq, Emit.bind_silent, if_neg Bool.false_ne_true] at h
      obtain ⟨out₁, _, more, hsend, rfl⟩ := Emit.exists_of_bind_ok h
      obtain ⟨rest, rfl⟩ := sendNextPdu_out hsend
      refine ⟨rest ++ more, ?_⟩
      rw [chunk, Nat.zero_mul, List.drop_zero, List.cons_append]
  | succ n ih =>
      rw [promptRun] at h
      obtain ⟨out₁, _, more, hrun, rfl⟩ := Emit.exists_of_bind_ok h
      obtain ⟨rest, rfl⟩ := ih hrun
      exact ⟨rest ++ more, List.cons_append ..⟩

theorem chunk_zero_length : (chunk file bufSize.toNat 0).length =
    min bufSize.toNat file.length := by
  rw [chunk, Nat.zero_mul, List.drop_zero, List.length_take]

/-- The first PDU has its whole length only if that fits a `uint16_t`. -/
theorem Covers.chunk_le (h : Covers w bufSize file) (hpos : 0 < w) (hsmall : w < 2147483648) :
    (chunk file bufSize.toNat 0).length ≤ 65528 := by
  obtain ⟨n, pdus, eof, s, hrun, hpc, hn, hcarries, _⟩ := h
  obtain ⟨rest, hout⟩ := promptRun_out hpos hsmall hrun
  cases pdus with
  | nil =>
      rw [← hn] at hrun
      have hends : (promptRun w bufSize file 0).Ends fun s' => s'.pc = .checkForRRs :=
        (transferDataTest_ends rfl).mono fun _ hs' => hs'.1
      have hopen : s.pc = .checkForRRs := hends s (congrArg Emit.result hrun)
      rw [hpc] at hopen
      cases hopen
  | cons pduBuf pdus =>
      obtain ⟨packet, s', hcarry, _⟩ := hcarries 0 (Nat.succ_pos _)
      have hlen := hcarry.length
      have hlt := chunk_lt file bufSize 0
      simp only [List.cons_append, List.cons.injEq] at hout
      rw [List.getElem_cons_zero, hout.1, shortPdu, List.length_take,
        createPdu_length] at hlen
      omega

theorem not_covers_of_zero (hzero : bufSize.toNat = 0) : ¬Covers w bufSize file := by
  have hrun : ∀ n, (promptRun w bufSize file n).Ends Endless := by
    intro n
    induction n with
    | zero => exact (transferDataTest_ends rfl).mono fun s' hs' => ⟨hs'.2 hzero, .inl hs'.1⟩
    | succ n ih => exact ih.bind fun s' hs' => hs'.round hzero
  rintro ⟨n, pdus, eof, s, heq, hpc, _⟩
  obtain ⟨_, hopen | ⟨count, hopen⟩⟩ := hrun n s (by rw [heq])
  · rw [hpc] at hopen
    cases hopen
  · rw [hpc] at hopen
    cases hopen

/-- The child does not get beyond the first RR out of range. -/
theorem promptRun_unfit (hs : Sendable bufSize file) (hpos : 0 < w) (hsmall : w < 2147483648)
    (hunfit : ¬AcksFit w (packets file bufSize)) (n : ℕ) :
    (∃ out s', promptRun w bufSize file n = ⟨out, .ok s'⟩ ∧ Prompt w bufSize file s' n ∧
      AcksFit w n) ∨ (promptRun w bufSize file n).Ends Blocked := by
  induction n with
  | zero =>
      obtain ⟨s', hsend, hprompt⟩ := prompt_init hs hpos hsmall
      exact .inl ⟨_, s', hsend, hprompt, acksFit_zero hsmall⟩
  | succ n ih =>
      rcases ih with ⟨out, s', hrun, hprompt, hfit⟩ | hblocked
      · by_cases hnext : AcksFit w (n + 1)
        · have hle := hprompt.holding.le
          have hne : n + 1 ≠ packets file bufSize := fun he => hunfit (he ▸ hnext)
          obtain ⟨s'', hround, hprompt'⟩ := hprompt.round_sends hs hnext (by omega)
          exact .inl ⟨_, s'', by rw [promptRun, hrun, Emit.bind_ok, hround], hprompt', hnext⟩
        · right
          rw [promptRun, hrun, Emit.bind_ok]
          exact hprompt.round_blocked hfit hnext
      · exact .inr (hblocked.bind fun s' hs' => hs'.round)

theorem Covers.acksFit (h : Covers w bufSize file) (hs : Sendable bufSize file) (hpos : 0 < w)
    (hsmall : w < 2147483648) : AcksFit w (packets file bufSize) := by
  by_contra hunfit
  obtain ⟨n, pdus, eof, s, heq, hpc, _⟩ := h
  rcases promptRun_unfit hs hpos hsmall hunfit n with ⟨out, s', hrun, hprompt, _⟩ | hblocked
  · rw [hrun] at heq
    cases heq
    rw [hprompt.pc] at hpc
    cases hpc
  · obtain ⟨count, hopen⟩ := hblocked s (by rw [heq])
    rw [hpc] at hopen
    cases hopen

/-- The chunks cover the file exactly for a buffer size that is not 0 and leaves
room for the header, or a file that does not fill such a buffer, when the RRs
are in range. -/
theorem covers_iff (hpos : 1 ≤ w) (hsmall : w < 2147483648) (bufSize : UInt16)
    (file : List UInt8) : Covers w bufSize file ↔
      1 ≤ bufSize.toNat ∧ (bufSize.toNat ≤ 65528 ∨ file.length ≤ 65528) ∧
        AcksFit w (packets file bufSize) := by
  have hsend : 1 ≤ bufSize.toNat → (bufSize.toNat ≤ 65528 ∨ file.length ≤ 65528) →
      Sendable bufSize file := by
    intro hbuf hlen
    refine ⟨hbuf, fun k => ?_⟩
    rw [chunk, List.length_take, List.length_drop]
    omega
  constructor
  · intro h
    have hbuf : 1 ≤ bufSize.toNat := by
      by_contra hzero
      exact not_covers_of_zero (by omega) h
    have hchunk := h.chunk_le hpos hsmall
    rw [chunk_zero_length] at hchunk
    have hlen : bufSize.toNat ≤ 65528 ∨ file.length ≤ 65528 := by omega
    exact ⟨hbuf, hlen, h.acksFit (hsend hbuf hlen) hpos hsmall⟩
  · rintro ⟨hbuf, hlen, hfit⟩
    exact covers_of_fit (hsend hbuf hlen) hpos hsmall hfit

theorem covers_iff_three_packets : Covers 4 2 [104, 101, 108, 108, 111] ↔
    1 ≤ (2 : UInt16).toNat ∧
      ((2 : UInt16).toNat ≤ 65528 ∨ ([104, 101, 108, 108, 111] : List UInt8).length ≤ 65528) ∧
      AcksFit 4 (packets [104, 101, 108, 108, 111] 2) :=
  covers_iff (by decide) (by decide) 2 [104, 101, 108, 108, 111]

/-- An empty buffer is never filled, and a full one of 65535 bytes is cut off. -/
theorem extreme_sizes_fail : ¬Covers 4 0 [104, 105] ∧
    ¬Covers 4 65535 (List.replicate 65535 0) := by
  refine ⟨not_covers_of_zero (by decide), fun h => ?_⟩
  have hchunk := h.chunk_le (by decide) (by decide)
  rw [chunk_zero_length, List.length_replicate] at hchunk
  exact absurd hchunk (by decide)

end
end SelRej
